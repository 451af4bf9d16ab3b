import Pickleback.Lib.Unwinding
import Pickleback.ServerSessions
import Pickleback.ServerTime

/-!
# Isolation of the clients of a server

What a server is to one address: a server that has only the clients of this address. Every call
either looks to that address like a call on such a server, or is not seen at all. There are two
exceptions, both of them defects: a packet from a stranger that an endpoint at another address
hears, and an update after which more than one client of a kind has timed out, which removes the
wrong ones. In runs without them no client has any influence on what another client gets.

## Main definitions

* `Server.SeenBy` — what a server is to one address
* `Server.look` — what a call looks like from there
* `Server.Isolates` — the two exceptions

## Main results

* `Server.unwinds` — one call
* `Server.map_run` — the runs it speaks of are the runs of a server
* `Server.isolated_of_run` — runs
-/

namespace Pickleback

/-! ### Lists of clients, some of which are seen -/

section Lists

variable {α β ω : Type} {p test : α → Bool} {call : α → Except Panic (α × β)}

theorem callOnFirst_filter (p test : α → Bool) (call : α → Except Panic (α × β)) (as : List α)
    (hcall : ∀ {a a' : α} {b : β}, call a = .ok (a', b) → p a' = p a)
    (hfind : ∀ a, as.find? test = some a → p a = true) : callOnFirst test call (as.filter p)
      = (callOnFirst test call as).map (Option.map fun r => (r.1.filter p, r.2)) := by
  induction as with
  | nil => rfl
  | cons a as ih =>
    by_cases htest : test a = true
    · have hp : p a = true := hfind a (List.find?_cons_of_pos htest)
      rw [List.filter_cons_of_pos hp, callOnFirst, callOnFirst, if_pos htest, if_pos htest]
      cases ha : call a with
      | error e => rfl
      | ok r =>
        show Except.ok (some (r.1 :: as.filter p, r.2)) =
          Except.ok (some ((r.1 :: as).filter p, r.2))
        rw [List.filter_cons_of_pos ((hcall (b := r.2) ha).trans hp)]
    · have hrest := ih fun a' ha' => hfind a' ((List.find?_cons_of_neg htest).trans ha')
      rw [callOnFirst, if_neg htest]
      by_cases hp : p a = true
      · rw [List.filter_cons_of_pos hp, callOnFirst, if_neg htest, hrest]
        cases callOnFirst test call as with
        | error e => rfl
        | ok r =>
          cases r with
          | none => rfl
          | some r =>
            show Except.ok (some (a :: r.1.filter p, r.2)) =
              Except.ok (some ((a :: r.1).filter p, r.2))
            rw [List.filter_cons_of_pos hp]
      · rw [List.filter_cons_of_neg hp, hrest]
        cases callOnFirst test call as with
        | error e => rfl
        | ok r =>
          cases r with
          | none => rfl
          | some r =>
            show Except.ok (some (r.1.filter p, r.2)) = Except.ok (some ((a :: r.1).filter p, r.2))
            rw [List.filter_cons_of_neg hp]

theorem takeFirst_filter {as : List α} (htest : ∀ a, test a = true → p a = true) :
    takeFirst test (as.filter p) = (takeFirst test as).map fun r => (r.1, r.2.filter p) := by
  induction as with
  | nil => rfl
  | cons a as ih =>
    rw [takeFirst]
    by_cases ha : test a = true
    · rw [List.filter_cons_of_pos (htest a ha), takeFirst, if_pos ha, if_pos ha]
      rfl
    · rw [if_neg ha]
      by_cases hp : p a = true
      · rw [List.filter_cons_of_pos hp, takeFirst, if_neg ha, ih]
        cases takeFirst test as with
        | none => rfl
        | some r =>
          show some (r.1, a :: r.2.filter p) = some (r.1, (a :: r.2).filter p)
          rw [List.filter_cons_of_pos hp]
      · rw [List.filter_cons_of_neg hp, ih]
        cases takeFirst test as with
        | none => rfl
        | some r =>
          show some (r.1, r.2.filter p) = some (r.1, (a :: r.2).filter p)
          rw [List.filter_cons_of_neg hp]

/-- A call on every entry, and what is seen of what the calls put out. -/
theorem callOnEach_filter (p : α → Bool) (sees : ω → Bool) (out : β → List ω)
    (hcall : ∀ {a a' : α} {b : β}, call a = .ok (a', b) →
      p a' = p a ∧ (out b).filter sees = if p a then out b else []) {as as' : List α} {bs : List β}
    (heach : callOnEach call as = .ok (as', bs)) :
    ∃ bs', callOnEach call (as.filter p) = .ok (as'.filter p, bs') ∧
      bs'.flatMap out = (bs.flatMap out).filter sees := by
  induction as generalizing as' bs with
  | nil =>
    cases heach
    exact ⟨[], rfl, rfl⟩
  | cons a as ih =>
    simp only [callOnEach] at heach
    split at heach
    · cases heach
    · next a' b ha =>
      obtain ⟨⟨as₁, bs₁⟩, hrest, heq⟩ := exists_of_map_eq_ok heach
      cases heq
      obtain ⟨hsame, hout⟩ := hcall ha
      obtain ⟨bs', heach', hseen⟩ := ih hrest
      rw [List.flatMap_cons, List.filter_append, hout, ← hseen]
      by_cases hp : p a = true
      · refine ⟨b :: bs', ?_, ?_⟩
        · rw [List.filter_cons_of_pos hp, List.filter_cons_of_pos (hsame.trans hp), callOnEach, ha]
          show (callOnEach call (as.filter p)).map _ = _
          rw [heach']
          rfl
        · rw [if_pos hp, List.flatMap_cons]
      · refine ⟨bs', ?_, ?_⟩
        · rw [List.filter_cons_of_neg hp, List.filter_cons_of_neg (by rwa [hsame]), heach']
        · rw [if_neg hp, List.nil_append]

/-- Writing to a place: an entry that is seen is in the place that the seen ones before it leave. -/
theorem filter_set {as : List α} {n : ℕ} {a : α} (ha : as[n]? = some a)
    (a' : α) (hsame : p a' = p a) :
    (as.set n a').filter p = if p a then (as.filter p).set ((as.take n).countP p) a'
      else as.filter p := by
  induction as generalizing n with
  | nil => cases ha
  | cons b as ih =>
    cases n with
    | zero =>
      cases ha
      by_cases hp : p a = true
      · rw [if_pos hp, List.set_cons_zero, List.filter_cons_of_pos (hsame.trans hp),
          List.filter_cons_of_pos hp]
        rfl
      · rw [if_neg hp, List.set_cons_zero, List.filter_cons_of_neg (by rwa [hsame]),
          List.filter_cons_of_neg hp]
    | succ n =>
      rw [List.set_cons_succ, List.take_succ_cons]
      have hrest := ih ha
      by_cases hb : p b = true
      · rw [List.filter_cons_of_pos hb, List.filter_cons_of_pos hb, List.countP_cons_of_pos hb,
          List.set_cons_succ, hrest]
        split
        · rfl
        · rfl
      · rw [List.filter_cons_of_neg hb, List.filter_cons_of_neg hb,
          List.countP_cons_of_neg hb, hrest]

theorem getElem?_filter {as : List α} {n : ℕ} {a : α} (ha : as[n]? = some a) (hp : p a = true) :
    (as.filter p)[(as.take n).countP p]? = some a := by
  induction as generalizing n with
  | nil => cases ha
  | cons b as ih =>
    cases n with
    | zero =>
      cases ha
      rw [List.filter_cons_of_pos hp]
      rfl
    | succ n =>
      rw [List.take_succ_cons]
      by_cases hb : p b = true
      · rw [List.filter_cons_of_pos hb, List.countP_cons_of_pos hb, List.getElem?_cons_succ]
        exact ih ha
      · rw [List.filter_cons_of_neg hb, List.countP_cons_of_neg hb]
        exact ih ha

/-- Lists that are the same but for what is at one key are the same at another. -/
theorem filter_eq_of_filter_ne {κ : Type} [DecidableEq κ] {key : α → κ}
    {k k' : κ} (hne : k ≠ k') {as as' : List α}
    (h : (as'.filter fun a => key a ≠ k) = as.filter fun a => key a ≠ k) :
    (as'.filter fun a => key a = k') = as.filter fun a => key a = k' := by
  have hkeep : ∀ as : List α,
      (as.filter fun a => key a = k') = (as.filter fun a => key a ≠ k).filter fun a =>
        key a = k' := by
    intro as
    rw [List.filter_filter]
    refine List.filter_congr fun a _ => ?_
    by_cases ha : key a = k'
    · simp [ha, hne.symm]
    · simp [ha]
  rw [hkeep as', hkeep as, h]

end Lists

namespace Server

/-! ### What a server is to one address -/

/-- The server `t` is what the server `s` is to the clients of an address: it has these clients and
no others, and the packets for them. -/
structure SeenBy (addr : SocketAddr) (s t : Server) : Prop where
  time : t.time = s.time
  config : t.config = s.config
  overflowChecks : t.overflowChecks = s.overflowChecks
  pending : t.pendingClients = s.pendingClients.filter fun pc => pc.socketAddr = addr
  connected : t.connectedClients = s.connectedClients.filter fun cc => cc.socketAddr = addr
  outbox : t.outbox = s.outbox.filter fun packet => packet.1 = addr

variable {addr : SocketAddr} {s s' t : Server}

theorem seenBy_new (overflowChecks : Bool) (time : Time) (config : PicklebackConfig) :
    SeenBy addr (new overflowChecks time config) (new overflowChecks time config) :=
  ⟨rfl, rfl, rfl, rfl, rfl, rfl⟩

/-! ### Receiving -/

/-- The answer of a server that lets nobody in depends on its configuration only. -/
theorem exists_deny_eq (s : Server) (addr : SocketAddr) (reason : DisconnectReason) : ∃ pool,
    s.deny addr reason = .ok (if 4 ≤ s.config.maxPacketSize then
        ({ s with
          outbox := s.outbox ++
            [(addr, (ProtocolPacketHeader.newNoAcks 0 .connectionDenied).write ++ [reason.toU8])]
          pool := pool }, .ok ())
      else ({ s with pool := pool }, .error (.io .writeZero))) := by
  rw [deny, writePacket]
  dsimp only [ProtocolPacket.bytes]
  by_cases hfits : 4 ≤ s.config.maxPacketSize
  · refine ⟨(s.pool.getBuffer s.config.maxPacketSize).2.returnBuffer
      ((s.pool.getBuffer s.config.maxPacketSize).1.write
        ((ProtocolPacketHeader.newNoAcks 0 .connectionDenied).write ++ [reason.toU8])), ?_⟩
    rw [WriteLimiter.writeAll_of_le (by exact hfits), if_pos hfits]
    simp only [Except.map, WriteLimiter.new, PooledBuffer.data_write,
      BufPool.data_getBuffer, List.nil_append]
  · refine ⟨(s.pool.getBuffer s.config.maxPacketSize).2, ?_⟩
    rw [if_neg hfits, WriteLimiter.writeAll, if_neg (by exact hfits)]
    rfl

/-- A packet for the address itself is seen. -/
theorem SeenBy.deny (h : SeenBy addr s t) {reason : DisconnectReason}
    {r : Except PicklebackError Unit}
    (hcall : s.deny addr reason = .ok (s', r)) : ∃ t', t.deny addr reason = .ok (t', r) ∧
      SeenBy addr s' t' := by
  obtain ⟨pool, hs⟩ := exists_deny_eq s addr reason
  obtain ⟨pool', ht⟩ := exists_deny_eq t addr reason
  rw [hs] at hcall
  rw [ht, h.config]
  by_cases hfits : 4 ≤ s.config.maxPacketSize
  · rw [if_pos hfits] at hcall
    cases hcall
    rw [if_pos hfits]
    refine ⟨_, rfl, { h with config := rfl, outbox := ?_ }⟩
    rw [List.filter_append, h.outbox, List.filter_cons_of_pos (by simp), List.filter_nil]
  · rw [if_neg hfits] at hcall
    cases hcall
    rw [if_neg hfits]
    exact ⟨_, rfl, { h with config := rfl }⟩

theorem SeenBy.receiveRequest (h : SeenBy addr s t) {salt clientSalt : UInt64}
    {header : ProtocolPacketHeader}
    {rest : List UInt8} {r : Except PicklebackError Unit}
    (hcall : s.receiveRequest salt header rest clientSalt addr = .ok (s', r)) :
    ∃ t', t.receiveRequest salt header rest clientSalt addr = .ok (t', r) ∧ SeenBy addr s' t' := by
  have hfirst := callOnFirst_filter (fun pc : PendingClient => decide (pc.socketAddr = addr))
    (fun pc => pc.clientSalt == clientSalt && pc.socketAddr == addr)
    (fun pc => (pc.pickleback.processIncomingPacket header rest).map
      fun r => ({ pc with pickleback := r.1 }, r.2)) s.pendingClients (by
        intro pc pc' b hpc
        obtain ⟨x, -, heq⟩ := exists_of_map_eq_ok hpc
        cases heq
        rfl) (by
        intro pc hpc
        have htest := List.find?_some hpc
        rw [Bool.and_eq_true, beq_iff_eq, beq_iff_eq] at htest
        exact decide_eq_true htest.2)
  rw [← h.pending] at hfirst
  simp only [Server.receiveRequest] at hcall
  simp only [Server.receiveRequest, hfirst, h.overflowChecks, h.time]
  split at hcall
  · cases hcall
  · next hfound =>
    cases hcall
    rw [hfound]
    exact ⟨_, rfl, { h with time := rfl, overflowChecks := rfl, pending := rfl }⟩
  · next hfound =>
    rw [hfound]
    dsimp only [Except.map, Option.map]
    split at hcall
    · cases hcall
    · next hp =>
      cases hcall
      exact ⟨t, rfl, h⟩
    · next p hp =>
      cases hcall
      refine ⟨_, rfl, { h with time := rfl, overflowChecks := rfl, pending := ?_ }⟩
      rw [List.filter_append, h.pending, List.filter_cons_of_pos (by simp), List.filter_nil]

theorem SeenBy.promote (h : SeenBy addr s t) {pc : PendingClient}
    {header : ProtocolPacketHeader} {rest : List UInt8}
    {xorSalt : UInt64} {r : Except PicklebackError Unit}
    (hcall : s.promote pc header rest xorSalt addr = .ok (s', r)) :
    ∃ t', t.promote pc header rest xorSalt addr = .ok (t', r) ∧ SeenBy addr s' t' := by
  rw [Server.promote] at hcall ⊢
  split at hcall
  · next hsalt =>
    cases hcall
    rw [if_pos hsalt]
    exact ⟨t, rfl, h⟩
  · next hsalt =>
    rw [if_neg hsalt]
    split at hcall
    · cases hcall
    · cases hcall
      exact ⟨t, rfl, h⟩
    · split at hcall
      · cases hcall
      · cases hcall
        exact ⟨t, rfl, h⟩
      · cases hcall
        refine ⟨_, rfl, { h with connected := ?_ }⟩
        rw [List.filter_append, h.connected, h.time, List.filter_cons_of_pos (by simp),
          List.filter_nil]

/-- A call of `process_incoming_packet` on the first connected client that passes a test, if it is
at the address. -/
theorem SeenBy.processFirst (h : SeenBy addr s t) (test : ConnectedClient → Bool)
    (change : ConnectedClient → ConnectedClient)
    (hchange : ∀ cc, (change cc).socketAddr = cc.socketAddr)
    (hfind : ∀ cc, s.connectedClients.find? test = some cc → cc.socketAddr = addr)
    (header : ProtocolPacketHeader)
    (rest : List UInt8) :
    callOnFirst test (fun cc => (change cc).processIncomingPacket header rest) t.connectedClients
      = (callOnFirst test (fun cc => (change cc).processIncomingPacket header rest)
        s.connectedClients).map
        (Option.map fun r => (r.1.filter fun cc => cc.socketAddr = addr, r.2)) := by
  rw [h.connected]
  refine callOnFirst_filter _ _ _ _ (fun {cc cc' b} hcc => ?_) fun cc hcc =>
    decide_eq_true (hfind cc hcc)
  obtain ⟨x, -, heq⟩ := exists_of_map_eq_ok hcc
  cases heq
  show decide ((change cc).socketAddr = addr) = decide (cc.socketAddr = addr)
  rw [hchange]

theorem SeenBy.receiveResponse (h : SeenBy addr s t) {header : ProtocolPacketHeader}
    {rest : List UInt8}
    {xorSalt : UInt64} (hnot : ¬ s.HearsStranger addr (.connectionChallengeResponse header xorSalt))
    {r : Except PicklebackError Unit}
    (hcall : s.receiveResponse header rest xorSalt addr = .ok (s', r)) :
    ∃ t', t.receiveResponse header rest xorSalt addr = .ok (t', r) ∧ SeenBy addr s' t' := by
  have htake : t.takePendingByXorSalt xorSalt addr = (s.takePendingByXorSalt xorSalt addr).map
      fun r => (r.1, r.2.filter fun pc => pc.socketAddr = addr) := by
    rw [takePendingByXorSalt, takePendingByXorSalt, h.pending]
    refine takeFirst_filter fun pc hpc => ?_
    rw [Bool.and_eq_true, beq_iff_eq, beq_iff_eq] at hpc
    exact decide_eq_true hpc.2
  simp only [Server.receiveResponse] at hcall
  simp only [Server.receiveResponse, htake]
  split at hcall
  · next pc left hfound =>
    rw [hfound]
    have hleft : SeenBy addr { s with pendingClients := left }
        { t with pendingClients := left.filter fun pc => pc.socketAddr = addr } :=
          { h with pending := rfl }
    exact hleft.promote hcall
  · next hnone =>
    rw [hnone]
    dsimp only [Option.map]
    have hfirst := h.processFirst (fun cc => cc.xorSalt == xorSalt) id (fun _ => rfl) (by
      intro cc hcc
      by_contra hne
      exact hnot ⟨hnone, cc, hcc, hne⟩) header rest
    simp only [id_eq] at hfirst
    rw [show ConnectedClient.processIncomingPacket header rest
      = fun cc => cc.processIncomingPacket header rest from rfl] at hcall ⊢
    rw [hfirst]
    split at hcall
    · cases hcall
    · next hfound =>
      cases hcall
      rw [hfound]
      exact ⟨_, rfl, { h with connected := rfl }⟩
    · next hfound =>
      rw [hfound]
      exact h.deny hcall

theorem SeenBy.receiveConnected (h : SeenBy addr s t) {header : ProtocolPacketHeader}
    {rest : List UInt8}
    {xorSalt : UInt64} {r : Except PicklebackError Unit}
    (hcall : s.receiveConnected header rest xorSalt addr = .ok (s', r)) :
    ∃ t', t.receiveConnected header rest xorSalt addr = .ok (t', r) ∧ SeenBy addr s' t' := by
  have hfirst := h.processFirst (fun cc => cc.xorSalt == xorSalt && cc.socketAddr == addr)
    (fun cc => { cc with confirmed := true, lastReceivedTime := s.time }) (fun _ => rfl) (by
      intro cc hcc
      have htest := List.find?_some hcc
      rw [Bool.and_eq_true, beq_iff_eq, beq_iff_eq] at htest
      exact htest.2) header rest
  simp only [Server.receiveConnected] at hcall
  simp only [Server.receiveConnected, h.time, hfirst]
  split at hcall
  · cases hcall
  · next hfound =>
    cases hcall
    rw [hfound]
    exact ⟨t, rfl, h⟩
  · next hfound =>
    cases hcall
    rw [hfound]
    exact ⟨_, rfl, { h with time := rfl, connected := rfl }⟩

theorem SeenBy.removeConnectedClient (h : SeenBy addr s t) (xorSalt : UInt64) :
    SeenBy addr (s.removeConnectedClient xorSalt addr) (t.removeConnectedClient xorSalt addr) := by
  have htake : takeFirst (fun cc : ConnectedClient =>
    cc.xorSalt == xorSalt && cc.socketAddr == addr) t.connectedClients
      = (takeFirst (fun cc : ConnectedClient => cc.xorSalt == xorSalt && cc.socketAddr == addr)
        s.connectedClients).map
        fun r => (r.1, r.2.filter fun cc => cc.socketAddr = addr) := by
    rw [h.connected]
    refine takeFirst_filter fun cc hcc => ?_
    rw [Bool.and_eq_true, beq_iff_eq, beq_iff_eq] at hcc
    exact decide_eq_true hcc.2
  rw [Server.removeConnectedClient, Server.removeConnectedClient, htake]
  cases takeFirst (fun cc : ConnectedClient => cc.xorSalt == xorSalt && cc.socketAddr == addr)
    s.connectedClients with
  | none => exact h
  | some r => exact { h with connected := rfl }

/-- **A packet from the address.** -/
theorem SeenBy.receive (h : SeenBy addr s t) {salt : UInt64} {bytes : List UInt8}
    (hnot : ∀ packet rest, readPacket bytes = .ok (packet, rest) → ¬ s.HearsStranger addr packet)
    {r : Except PicklebackError Unit} (hcall : s.receive salt bytes addr = .ok (s', r)) :
    ∃ t', t.receive salt bytes addr = .ok (t', r) ∧ SeenBy addr s' t' := by
  rw [Server.receive] at hcall ⊢
  split at hcall
  · cases hcall
    exact ⟨t, rfl, h⟩
  · next packet rest hread =>
    cases packet with
    | connectionRequest header clientSalt version =>
      rw [handlePacket] at hcall ⊢
      split at hcall
      · next hversion =>
        rw [if_pos hversion]
        exact h.deny hcall
      · next hversion =>
        rw [if_neg hversion]
        exact h.receiveRequest hcall
    | connectionChallengeResponse header xorSalt => exact h.receiveResponse (hnot _ _ hread) hcall
    | disconnect header xorSalt =>
      cases hcall
      exact ⟨_, rfl, h.removeConnectedClient xorSalt⟩
    | keepAlive header xorSalt index => exact h.receiveConnected hcall
    | messages header xorSalt => exact h.receiveConnected hcall
    | connectionChallenge header clientSalt serverSalt =>
      cases hcall
      exact ⟨t, rfl, h⟩
    | connectionDenied header reason =>
      cases hcall
      exact ⟨t, rfl, h⟩

/-- **A packet from another address** is not seen. -/
theorem SeenBy.receive_other (h : SeenBy addr s t) {source : SocketAddr}
    (hne : source ≠ addr) {salt : UInt64}
    {bytes : List UInt8} (hnot : ∀ packet rest, readPacket bytes = .ok (packet, rest) →
      ¬ s.HearsStranger source packet)
    {r : Except PicklebackError Unit} (hcall : s.receive salt bytes source = .ok (s', r)) :
    SeenBy addr s' t := by
  obtain ⟨rfl, -⟩ | ⟨packet, rest, hread, hreceives⟩ := receive_cases hcall
  · exact h
  · obtain ⟨hpending, hconnected, added, houtbox, hadded⟩ :=
      hreceives.untouchedBut (hnot packet rest hread)
    have hsame : s'.time = s.time ∧ s'.config = s.config ∧
      s'.overflowChecks = s.overflowChecks := by
      cases hreceives <;> exact ⟨rfl, rfl, rfl⟩
    refine ⟨h.time.trans hsame.1.symm, h.config.trans hsame.2.1.symm,
      h.overflowChecks.trans hsame.2.2.symm, ?_, ?_, ?_⟩
    · rw [h.pending]
      exact (filter_eq_of_filter_ne hne hpending).symm
    · rw [h.connected]
      exact (filter_eq_of_filter_ne hne hconnected).symm
    · have hnone : (added.filter fun packet => packet.1 = addr) = [] := by
        refine List.filter_eq_nil_iff.mpr fun packet hpacket => ?_
        rw [hadded packet hpacket]
        simpa using hne
      rw [h.outbox, houtbox, List.filter_append, hnone, List.append_nil]

/-! ### Advancing time -/

theorem update_frame {dt : Time} (hcall : s.update dt = .ok s') :
    s'.time = s.time + dt ∧ s'.config = s.config ∧
    s'.overflowChecks = s.overflowChecks ∧ s'.outbox = s.outbox := by
  simp only [Server.update, processPendingClients] at hcall
  split at hcall
  · cases hcall
  · next s₁ hs₁ =>
    split at hs₁
    · cases hs₁
    · obtain ⟨r, -, rfl⟩ := exists_of_map_eq_ok hs₁
      simp only [processConnectedClients] at hcall
      split at hcall
      · cases hcall
      · obtain ⟨r', -, rfl⟩ := exists_of_map_eq_ok hcall
        exact ⟨rfl, rfl, rfl, rfl⟩

/-- What is left of some entries is what is left of those that are seen. -/
theorem filter_of_forall₂ {α : Type} {R : α → α → Prop} {p keeps : α → Bool}
    {as left left' : List α}
    (h : List.Forall₂ R (as.filter keeps) left)
    (h' : List.Forall₂ R ((as.filter p).filter keeps) left')
    (hsame : ∀ a a', R a a' → p a' = p a) (hunique : Relator.RightUnique R) :
    left' = left.filter p := by
  rw [List.filter_comm] at h'
  exact hunique.forall₂ h' (forall₂_filter h hsame)

/-- **An update** that removes the right clients. -/
theorem SeenBy.update (h : SeenBy addr s t) {dt : Time}
    (hpending : s.pendingClients.countP (PendingClient.timedOut (s.time + dt)) ≤ 1)
    (hconnected : s.connectedClients.countP (ConnectedClient.timedOut (s.time + dt)) ≤ 1)
    (hcall : s.update dt = .ok s') : ∃ t', t.update dt = .ok t' ∧ SeenBy addr s' t' := by
  obtain ⟨s₁, hs, hremoves⟩ := exists_update hpending hconnected
  obtain rfl : s' = s₁ := Except.ok.inj (hcall.symm.trans hs)
  have hpending' : t.pendingClients.countP (PendingClient.timedOut (t.time + dt)) ≤ 1 := by
    rw [h.time, h.pending]
    exact List.filter_sublist.countP_le.trans hpending
  have hconnected' : t.connectedClients.countP (ConnectedClient.timedOut (t.time + dt)) ≤ 1 := by
    rw [h.time, h.connected]
    exact List.filter_sublist.countP_le.trans hconnected
  obtain ⟨t', ht, hremoves'⟩ := exists_update hpending' hconnected'
  obtain ⟨htime, hconfig, hoverflow, houtbox⟩ := update_frame hs
  obtain ⟨htime', hconfig', hoverflow', houtbox'⟩ := update_frame ht
  refine ⟨t', ht, ?_⟩
  constructor
  · rw [htime', htime, h.time]
  · rw [hconfig', hconfig, h.config]
  · rw [hoverflow', hoverflow, h.overflowChecks]
  · have hleft := hremoves'.pending
    rw [h.time, h.pending] at hleft
    refine filter_of_forall₂ hremoves.pending hleft (fun pc pc' hrel => ?_) fun pc pc₁ pc₂ h₁ h₂ =>
      ?_
    · rw [hrel.1]
    · exact congrArg Prod.fst (Except.ok.inj (h₁.2.symm.trans h₂.2))
  · have hleft := hremoves'.connected
    rw [h.time, h.connected] at hleft
    refine filter_of_forall₂ hremoves.connected hleft (fun cc cc' hrel => ?_)
      fun cc cc₁ cc₂ h₁ h₂ => ?_
    · rw [hrel.1]
    · exact congrArg Prod.fst (Except.ok.inj (h₁.2.symm.trans h₂.2))
  · rw [houtbox', houtbox, h.outbox]

/-! ### Sending -/

/-- What is seen of packets for one address. -/
theorem filter_map_addr (source addr : SocketAddr) (packets : List (List UInt8)) :
    ((packets.map fun packet => (source, packet)).filter fun packet => packet.1 = addr)
      = if decide (source = addr) then packets.map fun packet => (source, packet) else [] := by
  rw [List.filter_map]
  by_cases hsource : source = addr
  · rw [if_pos (decide_eq_true hsource)]
    congr 1
    exact List.filter_eq_self.mpr fun _ _ => decide_eq_true hsource
  · rw [if_neg (by simpa using hsource)]
    exact List.map_eq_nil_iff.mpr (List.filter_eq_nil_iff.mpr fun _ _ => by simpa using hsource)

/-- **A visit.** -/
theorem SeenBy.visitPacketsToSend (h : SeenBy addr s t) {sent : List (SocketAddr × List UInt8)}
    (hcall : s.visitPacketsToSend = .ok (s', sent)) :
    ∃ t', t.visitPacketsToSend = .ok (t', sent.filter fun packet => packet.1 = addr) ∧
      SeenBy addr s' t' := by
  simp only [Server.visitPacketsToSend] at hcall
  split at hcall
  · cases hcall
  · next pending sentPending hpending =>
    obtain ⟨⟨connected, sentConnected⟩, hconnected, heq⟩ := exists_of_map_eq_ok hcall
    cases heq
    obtain ⟨sentPending', hpending', hseen⟩ :=
      callOnEach_filter (fun pc => decide (pc.socketAddr = addr))
      (fun packet => decide (packet.1 = addr)) id (fun {pc pc' b} hpc => by
        obtain ⟨x, -, heq⟩ := exists_of_map_eq_ok hpc
        cases heq
        exact ⟨rfl, filter_map_addr _ _ _⟩) hpending
    obtain ⟨sentConnected', hconnected', hseen'⟩ :=
      callOnEach_filter (fun cc => decide (cc.socketAddr = addr))
      (fun packet => decide (packet.1 = addr)) id (fun {cc cc' b} hcc => by
        obtain ⟨x, -, heq⟩ := exists_of_map_eq_ok hcc
        cases heq
        exact ⟨rfl, filter_map_addr _ _ _⟩) hconnected
    rw [List.flatMap_id, List.flatMap_id] at hseen hseen'
    rw [Server.visitPacketsToSend, h.pending, hpending', h.connected, h.time]
    dsimp only
    rw [hconnected', List.filter_append, List.filter_append, ← hseen, ← hseen', ← h.outbox]
    exact ⟨_, rfl, { h with time := rfl, pending := rfl, connected := rfl, outbox := rfl }⟩

theorem SeenBy.broadcastMessage (h : SeenBy addr s t) {channel : UInt8} {payload : List UInt8}
    (hcall : s.broadcastMessage channel payload = .ok s') :
    ∃ t', t.broadcastMessage channel payload = .ok t' ∧ SeenBy addr s' t' := by
  obtain ⟨⟨connected, results⟩, hconnected, rfl⟩ := exists_of_map_eq_ok hcall
  obtain ⟨results', hconnected', -⟩ := callOnEach_filter (fun cc => decide (cc.socketAddr = addr))
    (fun _ : Unit => true) (fun _ => []) (fun {cc cc' b} hcc => by
      obtain ⟨x, -, heq⟩ := exists_of_map_eq_ok hcc
      cases heq
      exact ⟨rfl, by simp⟩) hconnected
  rw [Server.broadcastMessage, h.connected, hconnected']
  exact ⟨_, rfl, { h with connected := rfl }⟩

/-- Disconnecting never fails, and nothing is left of the packet. -/
theorem disconnectClient_eq (s : Server) (xorSalt : UInt64) : s.disconnectClient xorSalt
    = .ok { s with connectedClients := s.connectedClients.filter fun cc =>
      cc.xorSalt != xorSalt } := by
  have hreturns : ∃ r, callOnFirst (fun cc : ConnectedClient => cc.xorSalt == xorSalt) (fun cc =>
      (cc.pickleback.sendControl .disconnect fun header => .disconnect header xorSalt).map
        fun r => ({ cc with pickleback := r.1 }, ())) s.connectedClients = .ok r := by
    refine exists_callOnFirst _ _ fun cc _ => ?_
    obtain ⟨p, r, hp⟩ := cc.pickleback.exists_sendControl .disconnect
      (fun header => .disconnect header xorSalt) fun _ => ⟨_, rfl⟩
    rw [hp]
    exact ⟨_, rfl⟩
  obtain ⟨r, hfirst⟩ := hreturns
  rw [disconnectClient, hfirst]
  cases r with
  | none =>
    have hnone := List.find?_eq_none.mp (find?_of_callOnFirst_none hfirst)
    rw [List.filter_eq_self.mpr fun cc hcc => by simpa using hnone cc hcc]
  | some r =>
    obtain ⟨before, cc, cc', after, hconnected, hr, htest, hcc⟩ := callOnFirst_cases hfirst
    obtain ⟨x, -, heq⟩ := exists_of_map_eq_ok hcc
    cases heq
    dsimp only
    rw [hr, hconnected, filter_replace (by simpa using htest) (by simpa using htest)]

theorem SeenBy.disconnectClient (h : SeenBy addr s t) {xorSalt : UInt64}
    (hcall : s.disconnectClient xorSalt = .ok s') : ∃ t', t.disconnectClient xorSalt = .ok t' ∧
      SeenBy addr s' t' := by
  rw [disconnectClient_eq] at hcall
  cases hcall
  refine ⟨_, disconnectClient_eq t xorSalt, { h with connected := ?_ }⟩
  rw [h.connected, List.filter_comm]

/-! ### Calls of the application on one client -/

/-- The place of a client among those of its address. -/
def placeOf (addr : SocketAddr) (s : Server) (n : ℕ) : Option ℕ :=
  if (s.connectedClients[n]?).any fun cc => cc.socketAddr = addr then
    some ((s.connectedClients.take n).countP fun cc => cc.socketAddr = addr)
  else none

theorem placeOf_eq_some {n m : ℕ} (h : s.placeOf addr n = some m) :
    ∃ cc, s.connectedClients[n]? = some cc ∧
    cc.socketAddr = addr ∧ m = (s.connectedClients.take n).countP fun cc =>
      cc.socketAddr = addr := by
  rw [placeOf] at h
  split at h
  · next hany =>
    obtain ⟨cc, hcc, haddr⟩ := (Option.any_eq_true _ _).mp hany
    exact ⟨cc, hcc, of_decide_eq_true haddr, (Option.some.inj h).symm⟩
  · cases h

theorem socketAddr_ne_of_placeOf {n : ℕ} (h : s.placeOf addr n = none) {cc : ConnectedClient}
    (hcc : s.connectedClients[n]? = some cc) : cc.socketAddr ≠ addr := by
  rw [placeOf, hcc] at h
  split at h
  · cases h
  · next hany => simpa using hany

/-- Another endpoint for the client in a place. -/
theorem SeenBy.set (h : SeenBy addr s t) {n m : ℕ} (hplace : s.placeOf addr n = some m)
    {cc : ConnectedClient}
    (hcc : s.connectedClients[n]? = some cc) (p : Endpoint) :
    SeenBy addr { s with connectedClients := s.connectedClients.set n { cc with pickleback := p } }
      { t with connectedClients := t.connectedClients.set m { cc with pickleback := p } } := by
  obtain ⟨cc₁, hcc₁, haddr, rfl⟩ := placeOf_eq_some hplace
  obtain rfl : cc = cc₁ := Option.some.inj (hcc.symm.trans hcc₁)
  refine { h with connected := ?_ }
  rw [filter_set hcc { cc with pickleback := p } rfl, if_pos (decide_eq_true haddr), ← h.connected]

theorem SeenBy.set_other (h : SeenBy addr s t) {n : ℕ} (hplace : s.placeOf addr n = none)
    {cc : ConnectedClient}
    (hcc : s.connectedClients[n]? = some cc) (p : Endpoint) :
    SeenBy addr { s with connectedClients :=
      s.connectedClients.set n { cc with pickleback := p } } t := by
  have hne := socketAddr_ne_of_placeOf hplace hcc
  refine { h with connected := ?_ }
  rw [filter_set hcc { cc with pickleback := p } rfl, if_neg (by simpa using hne), ← h.connected]

theorem SeenBy.getElem? (h : SeenBy addr s t) {n m : ℕ} (hplace : s.placeOf addr n = some m) :
    t.connectedClients[m]? = s.connectedClients[n]? := by
  obtain ⟨cc, hcc, haddr, rfl⟩ := placeOf_eq_some hplace
  rw [h.connected, hcc]
  exact getElem?_filter hcc (decide_eq_true haddr)

/-- What a drain does to the client in a place. -/
theorem modify_eq_set {n : ℕ} {cc : ConnectedClient} (hcc : s.connectedClients[n]? = some cc)
    (f : Endpoint → Endpoint) :
    (s.connectedClients.modify n fun cc => { cc with pickleback := f cc.pickleback })
      = s.connectedClients.set n { cc with pickleback := f cc.pickleback } := by
  rw [List.modify_eq_set_getElem?, hcc]
  rfl

/-- A message for the client with a salt, if it is at the address. -/
theorem SeenBy.sendMessage (h : SeenBy addr s t) {id : UInt64}
    {channel : UInt8} {payload : List UInt8}
    (hfind : ∀ cc, (s.connectedClients.find? fun cc => cc.xorSalt == id) = some cc →
      cc.socketAddr = addr)
    {r : Except PicklebackError MessageId}
    (hcall : s.sendMessage id channel payload = .ok (s', r)) :
    ∃ t', t.sendMessage id channel payload = .ok (t', r) ∧ SeenBy addr s' t' := by
  have hfirst := callOnFirst_filter (fun cc : ConnectedClient => decide (cc.socketAddr = addr))
    (fun cc => cc.xorSalt == id) (ConnectedClient.sendMessage channel payload)
      s.connectedClients (by
      intro cc cc' b hcc
      obtain ⟨x, -, heq⟩ := exists_of_map_eq_ok hcc
      cases heq
      rfl) fun cc hcc => decide_eq_true (hfind cc hcc)
  obtain ⟨found, hfound, heq⟩ := exists_of_map_eq_ok hcall
  rw [Server.sendMessage, h.connected, hfirst, hfound]
  cases found with
  | none =>
    cases heq
    exact ⟨t, rfl, h⟩
  | some found =>
    cases heq
    exact ⟨_, rfl, { h with connected := rfl }⟩

theorem SeenBy.sendMessage_other (h : SeenBy addr s t) {id : UInt64}
    {channel : UInt8} {payload : List UInt8}
    (hfind : ∀ cc, (s.connectedClients.find? fun cc => cc.xorSalt == id) = some cc →
      cc.socketAddr ≠ addr)
    {r : Except PicklebackError MessageId}
    (hcall : s.sendMessage id channel payload = .ok (s', r)) :
    SeenBy addr s' t := by
  obtain ⟨found, hfound, heq⟩ := exists_of_map_eq_ok hcall
  cases found with
  | none =>
    cases heq
    exact h
  | some found =>
    cases heq
    obtain ⟨before, cc, cc', after, hconnected, hr, hcc, hsend⟩ := find?_of_callOnFirst hfound
    have haddr : cc'.socketAddr = cc.socketAddr := by
      obtain ⟨x, -, heq⟩ := exists_of_map_eq_ok hsend
      rw [← congrArg (fun r => r.1.socketAddr) heq]
    have hne := hfind cc hcc
    refine { h with connected := ?_ }
    rw [h.connected, hr, hconnected]
    exact (filter_replace (by simpa using hne) (by simpa [haddr] using hne)).symm

/-! ### Calls and runs -/

/-- One call, and the packets that it hands to `send_fn`. -/
def stepSent (s : Server) : Call → Except Panic (Server × List (SocketAddr × List UInt8))
  | .visitPacketsToSend => s.visitPacketsToSend
  | c => (s.step c).map fun s => (s, [])

theorem stepSent_of_ne (s : Server) {c : Call} (hc : c ≠ .visitPacketsToSend) :
    s.stepSent c = (s.step c).map fun s => (s, []) := by
  cases c with
  | visitPacketsToSend => exact absurd rfl hc
  | _ => rfl

/-- What a call looks like from an address: calls on other clients, and packets from elsewhere, are
not seen. -/
def look (addr : SocketAddr) (s : Server) : Call → Option Call
  | .receive salt bytes source => if source = addr then some (.receive salt bytes source) else none
  | .sendMessage id channel payload =>
    if (s.connectedClients.find? fun cc => cc.xorSalt == id).any fun cc => cc.socketAddr = addr then
      some (.sendMessage id channel payload)
    else none
  | .clientSendMessage n channel payload =>
    (s.placeOf addr n).map fun m => .clientSendMessage m channel payload
  | .getMessages n channel => (s.placeOf addr n).map fun m => .getMessages m channel
  | .drainAcks n channel => (s.placeOf addr n).map fun m => .drainAcks m channel
  | c => some c

/-- No endpoint hears a packet from a stranger, and no two clients of a kind time out in one
update. -/
def Isolates (s : Server) : Call → Prop
  | .receive _ bytes source =>
    ∀ packet rest, readPacket bytes = .ok (packet, rest) → ¬ s.HearsStranger source packet
  | .update dt => s.pendingClients.countP (PendingClient.timedOut (s.time + dt)) ≤ 1 ∧
    s.connectedClients.countP (ConnectedClient.timedOut (s.time + dt)) ≤ 1
  | _ => True

/-- **A call that is seen.** -/
theorem SeenBy.step (h : SeenBy addr s t) {c c' : Call} (hisolates : s.Isolates c)
    (hlook : look addr s c = some c')
    (hstep : s.step c = .ok s') : ∃ t', t.step c' = .ok t' ∧ SeenBy addr s' t' := by
  cases c with
  | receive salt bytes source =>
    obtain ⟨⟨s₁, r⟩, hcall, rfl⟩ := exists_of_map_eq_ok hstep
    rw [look] at hlook
    split at hlook
    · next hsource =>
      cases hlook
      subst hsource
      obtain ⟨t', ht', hseen⟩ := h.receive hisolates hcall
      exact ⟨t', by rw [Server.step, ht']; rfl, hseen⟩
    · cases hlook
  | update dt =>
    cases hlook
    exact h.update hisolates.1 hisolates.2 hstep
  | visitPacketsToSend =>
    cases hlook
    obtain ⟨⟨s₁, sent⟩, hcall, rfl⟩ := exists_of_map_eq_ok hstep
    obtain ⟨t', ht', hseen⟩ := h.visitPacketsToSend hcall
    exact ⟨t', by rw [Server.step, ht']; rfl, hseen⟩
  | disconnectClient xorSalt =>
    cases hlook
    exact h.disconnectClient hstep
  | sendMessage id channel payload =>
    obtain ⟨⟨s₁, r⟩, hcall, rfl⟩ := exists_of_map_eq_ok hstep
    rw [look] at hlook
    split at hlook
    · next hany =>
      cases hlook
      obtain ⟨cc, hcc, haddr⟩ := (Option.any_eq_true _ _).mp hany
      obtain ⟨t', ht', hseen⟩ := h.sendMessage (fun cc' hcc' => by
        rw [← Option.some.inj (hcc.symm.trans hcc')]
        exact of_decide_eq_true haddr) hcall
      exact ⟨t', by rw [Server.step, ht']; rfl, hseen⟩
    · cases hlook
  | broadcastMessage channel payload =>
    cases hlook
    exact h.broadcastMessage hstep
  | drainServerEvents =>
    cases hlook
    cases hstep
    exact ⟨_, rfl, { h with }⟩
  | clientSendMessage n channel payload =>
    obtain ⟨m, hplace, rfl⟩ := Option.map_eq_some_iff.mp hlook
    obtain ⟨cc, hcc, -⟩ := placeOf_eq_some hplace
    simp only [Server.step, clientSendMessage, hcc] at hstep
    simp only [Server.step, clientSendMessage, h.getElem? hplace, hcc]
    obtain ⟨⟨cc', r⟩, hsend, rfl⟩ := exists_of_map_eq_ok hstep
    rw [hsend]
    obtain ⟨⟨p, r'⟩, -, heq⟩ := exists_of_map_eq_ok hsend
    cases heq
    exact ⟨_, rfl, h.set hplace hcc p⟩
  | getMessages n channel =>
    obtain ⟨m, hplace, rfl⟩ := Option.map_eq_some_iff.mp hlook
    obtain ⟨cc, hcc, -⟩ := placeOf_eq_some hplace
    cases hstep
    refine ⟨_, rfl, ?_⟩
    rw [getMessages, getMessages, modify_eq_set hcc fun p => (p.drainReceivedMessages channel).1,
      modify_eq_set ((h.getElem? hplace).trans hcc) fun p => (p.drainReceivedMessages channel).1]
    exact h.set hplace hcc _
  | drainAcks n channel =>
    obtain ⟨m, hplace, rfl⟩ := Option.map_eq_some_iff.mp hlook
    obtain ⟨cc, hcc, -⟩ := placeOf_eq_some hplace
    cases hstep
    refine ⟨_, rfl, ?_⟩
    rw [drainAcks, drainAcks, modify_eq_set hcc fun p => (p.drainMessageAcks channel).1,
      modify_eq_set ((h.getElem? hplace).trans hcc) fun p => (p.drainMessageAcks channel).1]
    exact h.set hplace hcc _

/-- **A call that is not seen.** -/
theorem SeenBy.step_other (h : SeenBy addr s t) {c : Call} (hisolates : s.Isolates c)
    (hlook : look addr s c = none)
    (hstep : s.step c = .ok s') : SeenBy addr s' t := by
  cases c with
  | receive salt bytes source =>
    obtain ⟨⟨s₁, r⟩, hcall, rfl⟩ := exists_of_map_eq_ok hstep
    rw [look] at hlook
    split at hlook
    · cases hlook
    · next hsource => exact h.receive_other hsource hisolates hcall
  | sendMessage id channel payload =>
    obtain ⟨⟨s₁, r⟩, hcall, rfl⟩ := exists_of_map_eq_ok hstep
    rw [look] at hlook
    split at hlook
    · cases hlook
    · next hany =>
      refine h.sendMessage_other (fun cc hcc haddr => hany ?_) hcall
      rw [hcc]
      exact decide_eq_true haddr
  | clientSendMessage n channel payload =>
    have hplace := Option.map_eq_none_iff.mp hlook
    simp only [Server.step, clientSendMessage] at hstep
    split at hstep
    · cases hstep
      exact h
    · next cc hcc =>
      obtain ⟨⟨cc', r⟩, hsend, rfl⟩ := exists_of_map_eq_ok hstep
      obtain ⟨⟨p, r'⟩, -, heq⟩ := exists_of_map_eq_ok hsend
      cases heq
      exact h.set_other hplace hcc p
  | getMessages n channel =>
    have hplace := Option.map_eq_none_iff.mp hlook
    cases hstep
    rw [getMessages]
    cases hcc : s.connectedClients[n]? with
    | none =>
      rw [List.modify_eq_set_getElem?, hcc]
      exact { h with }
    | some cc =>
      rw [modify_eq_set hcc fun p => (p.drainReceivedMessages channel).1]
      exact h.set_other hplace hcc _
  | drainAcks n channel =>
    have hplace := Option.map_eq_none_iff.mp hlook
    cases hstep
    rw [drainAcks]
    cases hcc : s.connectedClients[n]? with
    | none =>
      rw [List.modify_eq_set_getElem?, hcc]
      exact { h with }
    | some cc =>
      rw [modify_eq_set hcc fun p => (p.drainMessageAcks channel).1]
      exact h.set_other hplace hcc _
  | update dt => cases hlook
  | visitPacketsToSend => cases hlook
  | disconnectClient xorSalt => cases hlook
  | broadcastMessage channel payload => cases hlook
  | drainServerEvents => cases hlook

/-- A visit alone looks like a visit, and packets that are seen are from the address. -/
theorem of_look {c c' : Call} (hlook : look addr s c = some c') :
    (c' = .visitPacketsToSend → c = .visitPacketsToSend) ∧
    ∀ salt bytes source, c' = .receive salt bytes source → source = addr := by
  cases c with
  | receive salt bytes source =>
    rw [look] at hlook
    split at hlook
    · next hsource =>
      cases hlook
      refine ⟨nofun, fun salt' bytes' source' heq => ?_⟩
      cases heq
      exact hsource
    · cases hlook
  | sendMessage id channel payload =>
    rw [look] at hlook
    split at hlook
    · cases hlook
      exact ⟨nofun, nofun⟩
    · cases hlook
  | clientSendMessage n channel payload =>
    obtain ⟨m, -, rfl⟩ := Option.map_eq_some_iff.mp hlook
    exact ⟨nofun, nofun⟩
  | getMessages n channel =>
    obtain ⟨m, -, rfl⟩ := Option.map_eq_some_iff.mp hlook
    exact ⟨nofun, nofun⟩
  | drainAcks n channel =>
    obtain ⟨m, -, rfl⟩ := Option.map_eq_some_iff.mp hlook
    exact ⟨nofun, nofun⟩
  | visitPacketsToSend => exact ⟨fun _ => rfl, fun _ _ _ heq => by cases hlook; cases heq⟩
  | update dt | disconnectClient xorSalt | broadcastMessage channel payload | drainServerEvents =>
    cases hlook
    exact ⟨nofun, nofun⟩

/-- **One call**, and what is seen of the packets it hands to `send_fn`. -/
theorem unwinds (addr : SocketAddr) :
    Unwinding.Unwinds stepSent Isolates (look addr) (fun packet => packet.1 = addr)
    (SeenBy addr) where
  seen {s s' t c c' out} h hisolates hlook hstep := by
    by_cases hc : c = .visitPacketsToSend
    · subst hc
      cases hlook
      exact h.visitPacketsToSend hstep
    · rw [stepSent_of_ne s hc] at hstep
      obtain ⟨s₁, hs₁, heq⟩ := exists_of_map_eq_ok hstep
      cases heq
      obtain ⟨t', ht', hseen⟩ := h.step hisolates hlook hs₁
      refine ⟨t', ?_, hseen⟩
      rw [stepSent_of_ne t fun hvisit => hc ((of_look hlook).1 hvisit), ht']
      rfl
  unseen {s s' t c out} h hisolates hlook hstep := by
    have hc : c ≠ .visitPacketsToSend := by
      rintro rfl
      cases hlook
    rw [stepSent_of_ne s hc] at hstep
    obtain ⟨s₁, hs₁, heq⟩ := exists_of_map_eq_ok hstep
    cases heq
    exact ⟨h.step_other hisolates hlook hs₁, rfl⟩

/-- The runs of a server, without what they put out. -/
theorem map_run (s : Server) (calls : List Call) :
    (Unwinding.run stepSent s calls).map Prod.fst = s.run calls := by
  refine Unwinding.map_run (fun s c => ?_) s calls
  by_cases hc : c = .visitPacketsToSend
  · rw [hc]
    rfl
  · rw [stepSent_of_ne s hc]
    cases s.step c with
    | error e => rfl
    | ok s' => rfl

/-- **Isolation.** In every run of a server in which no endpoint hears a stranger and no two clients
of a kind time out in one update, an address gets the packets that it would get from a server that
has received no packets of other addresses, and on which nothing was called for other clients; and
what the server has of the clients of this address is what that server has. -/
theorem isolated_of_run {overflowChecks : Bool} {time : Time} {config : PicklebackConfig}
    {calls : List Call}
    {sent : List (SocketAddr × List UInt8)}
    (hrun : Unwinding.run stepSent (new overflowChecks time config) calls = .ok (s, sent))
    (hisolates : Unwinding.Along stepSent Isolates (new overflowChecks time config) calls)
    (addr : SocketAddr) :
    (∀ salt bytes source,
      .receive salt bytes source ∈ Unwinding.purge stepSent (look addr)
      (new overflowChecks time config) calls →
        source = addr) ∧
      ∃ t, Unwinding.run stepSent (new overflowChecks time config)
          (Unwinding.purge stepSent (look addr) (new overflowChecks time config) calls)
            = .ok (t, sent.filter fun packet => packet.1 = addr) ∧
        SeenBy addr s t := by
  refine ⟨fun salt bytes source hmem => ?_, (unwinds addr).run (seenBy_new ..) hisolates hrun⟩
  exact Unwinding.forall_mem_purge (Q := fun c => ∀ salt bytes source,
    c = .receive salt bytes source → source = addr)
    (fun s c c' hlook => (of_look hlook).2) _ calls _ hmem salt bytes source rfl

instance (s : Server) (source : SocketAddr) (packet : ProtocolPacket) :
    Decidable (s.HearsStranger source packet) :=
  match packet with
  | .connectionChallengeResponse _ xorSalt =>
    decidable_of_iff ((s.takePendingByXorSalt xorSalt source).isNone = true ∧
        ((s.connectedClients.find? fun cc => cc.xorSalt == xorSalt).any fun cc =>
          cc.socketAddr ≠ source) = true) (by
      rw [HearsStranger, Option.isNone_iff_eq_none, Option.any_eq_true]
      exact and_congr_right fun _ => exists_congr fun cc => and_congr Iff.rfl decide_eq_true_iff)
  | .connectionRequest .. | .connectionChallenge .. | .connectionDenied ..
    | .messages .. | .disconnect .. |
    .keepAlive .. => isFalse id

instance (s : Server) (c : Call) : Decidable (s.Isolates c) :=
  match c with
  | .receive salt bytes source =>
    match hread : readPacket bytes with
    | .error e => isTrue fun packet rest h => (by rw [hread] at h; cases h)
    | .ok (packet, rest) => decidable_of_iff (¬ s.HearsStranger source packet)
      ⟨fun h packet' rest' h' => (by rw [hread] at h'; cases h'; exact h),
        fun h => h packet rest hread⟩
  | .update dt => inferInstanceAs (Decidable (_ ∧ _))
  | .visitPacketsToSend | .disconnectClient _ | .sendMessage ..
    | .broadcastMessage .. | .drainServerEvents |
    .clientSendMessage .. | .getMessages .. | .drainAcks .. => isTrue trivial

/-- Two clients connect and get a message each. The second gets what it would get alone. -/
def twoClients : List Call := [
  .receive 5 (requestBytes 1 7) (.v4 1 1), .receive 6 (requestBytes 1 8) (.v4 1 2),
  .receive 0 (responseBytes 2 2) (.v4 1 1), .receive 0 (responseBytes 2 14) (.v4 1 2),
  .clientSendMessage 1 0 [9], .sendMessage 2 1 [3], .update (1 / 100), .visitPacketsToSend]

theorem isolated_of_run_twoClients : ∃ s sent, Unwinding.run stepSent
    (new true 0 .default) twoClients = .ok (s, sent) ∧
    sent.map Prod.fst = [.v4 1 1, .v4 1 1, .v4 1 1, .v4 1 2, .v4 1 2, .v4 1 2] ∧
    (∀ salt bytes source,
      .receive salt bytes source ∈ Unwinding.purge stepSent (look (.v4 1 2))
      (new true 0 .default) twoClients →
        source = .v4 1 2) ∧
      ∃ t, Unwinding.run stepSent (new true 0 .default)
          (Unwinding.purge stepSent (look (.v4 1 2)) (new true 0 .default) twoClients)
            = .ok (t, sent.filter fun packet => packet.1 = .v4 1 2) ∧
        SeenBy (.v4 1 2) s t := by
  obtain ⟨⟨s, sent⟩, hrun, htest⟩ := exists_of_any_toOption (show
    (Unwinding.run stepSent (new true 0 .default) twoClients).toOption.any
      (fun r => decide
        (r.2.map Prod.fst = [.v4 1 1, .v4 1 1, .v4 1 1, .v4 1 2, .v4 1 2, .v4 1 2])) = true by
        decide +kernel)
  exact ⟨s, sent, hrun, of_decide_eq_true htest, isolated_of_run hrun (by decide +kernel) (.v4 1 2)⟩

end Server

end Pickleback
