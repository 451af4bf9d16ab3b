import Pickleback.ClientStates
import Pickleback.PacketWire

/-!
# What an outbox says

A property of packets that does not depend on their headers, followed from the calls that send a
packet to the bytes that leave an endpoint, and to what a peer reads from them. Packets of messages
are composed when an endpoint is visited; the others come from `sendControl`.

## Main definitions

* `Reads P bytes` — whatever is read from the bytes satisfies `P`
* `Endpoint.Posts P p` — so does whatever is read from a packet in the outbox
* `Client.MaySend` — what the state of a client lets it say

## Main results

* `Posts.sendControl`, `Posts.visitPacketsToSend` — sending
* `Client.Ready.visitPacketsToSend_maySend` — a client says nothing else
-/

namespace Pickleback

/-- Whatever is read from the bytes satisfies `P`. -/
def Reads (P : ProtocolPacket → Prop) (bytes : List UInt8) : Prop :=
  ∀ packet rest, readPacket bytes = .ok (packet, rest) → P packet

theorem Reads.mono {P Q : ProtocolPacket → Prop} {bytes : List UInt8} (h : Reads P bytes)
    (himp : ∀ packet, P packet → Q packet) : Reads Q bytes :=
  fun packet rest hread => himp packet (h packet rest hread)

/-- The function makes packets of type `t`, and leaves the header as it is. -/
structure Builds (t : PacketType) (build : ProtocolPacketHeader → ProtocolPacket) : Prop where
  header : ∀ h, (build h).header = h
  packetType : ∀ h, (build h).packetType = t
  withHeader : ∀ h h', (build h).withHeader h' = build h'

/-- A packet that was written is read as one of its kind, with the same fields. -/
theorem Builds.reads {t : PacketType} {build : ProtocolPacketHeader → ProtocolPacket}
    (hbuild : Builds t build)
    {P : ProtocolPacket → Prop} (hP : ∀ h, P (build h)) {header : ProtocolPacketHeader}
    (hmade : header.MadeFor t)
    {bytes : List UInt8} (hbytes : (build header).bytes = .ok bytes) : Reads P bytes := by
  intro packet rest hread
  obtain ⟨h', rest', hread', -⟩ := readPacket_bytes
    (by rw [hbuild.header, hbuild.packetType]; exact hmade) hbytes
  rw [hread', hbuild.withHeader] at hread
  cases hread
  exact hP h'

namespace Endpoint

variable {P : ProtocolPacket → Prop} {p p' : Endpoint}

/-- Whatever is read from a packet in the outbox satisfies `P`. -/
def Posts (P : ProtocolPacket → Prop) (p : Endpoint) : Prop :=
  ∀ bytes ∈ p.outbox.map PooledBuffer.data, Reads P bytes

theorem Posts.of_outbox (h : p.Posts P) (heq : p'.outbox = p.outbox) : p'.Posts P := by
  rw [Posts, heq]
  exact h

theorem posts_of_nil (h : p.outbox = []) : p.Posts P := by
  intro bytes hbytes
  rw [h] at hbytes
  cases hbytes

theorem Posts.mono {Q : ProtocolPacket → Prop} (h : p.Posts P)
    (himp : ∀ packet, P packet → Q packet) :
    p.Posts Q :=
  fun bytes hbytes => (h bytes hbytes).mono himp

/-- **A control packet** says what it was built to say. -/
theorem Posts.sendControl (h : p.Posts P) {t : PacketType}
    {build : ProtocolPacketHeader → ProtocolPacket}
    (hbuild : Builds t build) (hP : ∀ header, P (build header)) {r : Except PicklebackError Unit}
    (hcall : p.sendControl t build = .ok (p', r)) : p'.Posts P := by
  obtain ⟨-, hp⟩ | ⟨p₁, header, pool, buf, size, sb, -, hnext, hwrite, -, hp⟩ :=
    sendControl_cases hcall
  · exact h.of_outbox (by rw [hp])
  · intro bytes hbytes
    rw [hp, List.map_append] at hbytes
    rcases List.mem_append.mp hbytes with hbytes | hbytes
    · exact h bytes hbytes
    · rw [List.map_singleton, List.mem_singleton] at hbytes
      subst hbytes
      exact hbuild.reads hP (Or.inl ⟨p, p₁, hnext⟩) (writePacket_eq_ok hwrite).1

theorem Posts.emitsAll (h : p.Posts P) (hmessages : ∀ header salt, P (.messages header salt))
    {es : List Emission} (hall : p.EmitsAll es p') : p'.Posts P := by
  induction hall with
  | nil _ => exact h
  | cons hemits _ ih =>
    refine ih ?_
    intro bytes hbytes
    rw [hemits.outbox] at hbytes
    rcases List.mem_append.mp hbytes with hbytes | hbytes
    · exact h bytes hbytes
    · rw [List.mem_singleton.mp hbytes]
      intro packet rest hread
      obtain ⟨header, hread', -⟩ := readPacket_messages hemits.numAcks hemits.header _ _
      rw [Emission.bytes, hread'] at hread
      cases hread
      exact hmessages header _

/-- **A visit** hands over what was in the outbox, and packets of messages. -/
theorem Posts.visitPacketsToSend (h : p.Posts P) (hintact : p.Intact)
    (hmessages : ∀ header salt, P (.messages header salt)) {packets : List (List UInt8)}
    (hcall : p.visitPacketsToSend = .ok (p', packets)) : p'.outbox = [] ∧
      ∀ bytes ∈ packets, Reads P bytes := by
  obtain ⟨es, p₁, p₂, r, hall, -, hstop, rfl, rfl⟩ := visitPacketsToSend_cases hintact hcall
  have h₁ := h.emitsAll hmessages hall
  refine ⟨rfl, ?_⟩
  cases hstop with
  | done _ => exact h₁
  | unacked _ => exact h₁
  | acks pool _ => exact h₁

theorem outbox_sendMessage {channel : UInt8} {payload : List UInt8}
    {r : Except PicklebackError MessageId}
    (hcall : p.sendMessage channel payload = .ok (p', r)) : p'.outbox = p.outbox := by
  simp only [sendMessage] at hcall
  split at hcall
  · cases hcall
    rfl
  · split at hcall
    · cases hcall
      rfl
    · split at hcall
      · cases hcall
        rfl
      · split at hcall
        · cases hcall
        · cases hcall
          rfl

end Endpoint

/-! ### Clients -/

namespace Client

/-- What the state of a client lets it say. -/
def MaySend (c : Client) : ProtocolPacket → Prop
  | .connectionRequest _ clientSalt _ =>
    c.state = .sendingConnectionRequest ∧ c.clientSalt = some clientSalt
  | .connectionChallengeResponse _ xorSalt =>
    c.state = .sendingChallengeResponse ∧ c.xorSalt = some xorSalt
  | .keepAlive _ xorSalt _ => c.state = .connected ∧ c.xorSalt = some xorSalt
  | .disconnect _ _ => c.state = .selfInitiatedDisconnect
  | _ => False

variable {overflowChecks : Bool} {config : PicklebackConfig} {P : ProtocolPacket → Prop}
  {c c' : Client}

/-- A packet of a client goes into the outbox of its endpoint. -/
theorem posts_sendWithSalt (h : c.pickleback.Posts P) {t : PacketType}
    {salt : Option UInt64} {x : UInt64}
    (hsalt : salt = some x) {build : ProtocolPacketHeader → UInt64 → ProtocolPacket}
    (hbuild : Builds t fun header => build header x) (hP : ∀ header, P (build header x))
    {sent : Bool}
    (hcall : c.sendWithSalt t salt build = .ok (c', sent)) : c'.pickleback.Posts P := by
  have hcontrol : ∃ r, c.pickleback.sendControl t (fun header => build header x) =
    .ok (c'.pickleback, r) := by
    subst hsalt
    simp only [sendWithSalt] at hcall
    split at hcall
    · cases hcall
    · next p e hnext =>
      cases hcall
      exact ⟨.error e, by rw [Endpoint.sendControl, hnext]⟩
    · next p header hnext =>
      simp only [send] at hcall
      cases hsend : p.sendPacket (build header x) with
      | error q =>
        rw [hsend] at hcall
        cases hcall
      | ok r =>
        obtain ⟨p', r⟩ := r
        have hp : c.pickleback.sendControl t (fun header => build header x) = .ok (p', r) := by
          rw [Endpoint.sendControl, hnext]
          exact hsend
        rw [hsend] at hcall
        cases r <;>
        · cases hcall
          exact ⟨_, hp⟩
  obtain ⟨r, hr⟩ := hcontrol
  exact h.sendControl hbuild hP hr

theorem posts_sendHandshake (h : c.pickleback.Posts P) {t : PacketType}
    {salt : Option UInt64} {x : UInt64}
    (hsalt : salt = some x) {build : ProtocolPacketHeader → UInt64 → ProtocolPacket}
    (hbuild : Builds t fun header => build header x) (hP : ∀ header, P (build header x))
    (hcall : c.sendHandshake t salt build = .ok c') : c'.pickleback.Posts P := by
  simp only [sendHandshake] at hcall
  split at hcall
  · cases hcall
  · next c₁ hsend =>
    have h₁ : c₁.pickleback.Posts P := posts_sendWithSalt h hsalt hbuild hP hsend
    cases hcall
    exact h₁
  · next c₁ hsend =>
    cases hcall
    exact posts_sendWithSalt h hsalt hbuild hP hsend

/-- Before anything else is sent, there is at most what the state asks for; and the state stays,
unless the client was disconnecting. -/
theorem Ready.sendForState_maySend (h : Ready overflowChecks config c)
    (hposts : c.pickleback.Posts c.MaySend)
    {keepaliveNeeded : Bool} (hcall : c.sendForState = .ok (c', keepaliveNeeded)) :
    c'.pickleback.Posts c.MaySend ∧ (c.SameSession c' ∨
      (c.state = .selfInitiatedDisconnect ∧ c'.state = .disconnected .normal)) := by
  have hsame : c.SameSession c := ⟨rfl, rfl, rfl, rfl, rfl, rfl, rfl, rfl, rfl⟩
  rw [Client.sendForState] at hcall
  split at hcall
  · next hstate =>
    obtain ⟨clientSalt, serverSalt, -, -, hxor, -⟩ := h.consistent.talking (Or.inr (Or.inr hstate))
    obtain ⟨c₁, hsend, -⟩ := exists_sendDisconnects 10 hxor
    rw [if_pos (by rw [hxor]; rfl), hsend] at hcall
    cases hcall
    -- the endpoint is a new one, and the packets are gone with the old one
    exact ⟨Endpoint.posts_of_nil rfl, Or.inr ⟨hstate, rfl⟩⟩
  · next hstate =>
    obtain ⟨x, hclient⟩ := Option.isSome_iff_exists.mp (h.consistent.requesting hstate).1
    split at hcall
    · obtain ⟨c₁, hsend, hsame₁⟩ := c.exists_sendHandshake .connectionRequest hclient
        (fun header salt => .connectionRequest header salt protocolVersion) fun header => ⟨_, rfl⟩
      rw [hsend] at hcall
      cases hcall
      refine ⟨posts_sendHandshake hposts hclient ?_ ?_ hsend, Or.inl hsame₁⟩
      · exact ⟨fun _ => rfl, fun _ => rfl, fun _ _ => rfl⟩
      · exact fun _ => ⟨hstate, hclient⟩
    · cases hcall
      exact ⟨hposts, Or.inl hsame⟩
  · next hstate =>
    obtain ⟨clientSalt, serverSalt, -, -, hxor, -⟩ := h.consistent.talking (Or.inl hstate)
    split at hcall
    · obtain ⟨c₁, hsend, hsame₁⟩ := c.exists_sendHandshake .connectionChallengeResponse hxor
        .connectionChallengeResponse fun header => ⟨_, rfl⟩
      rw [hsend] at hcall
      cases hcall
      refine ⟨posts_sendHandshake hposts hxor ?_ ?_ hsend, Or.inl hsame₁⟩
      · exact ⟨fun _ => rfl, fun _ => rfl, fun _ _ => rfl⟩
      · exact fun _ => ⟨hstate, hxor⟩
    · cases hcall
      exact ⟨hposts, Or.inl hsame⟩
  · cases hcall
    exact ⟨hposts, Or.inl hsame⟩
  · cases hcall
    exact ⟨hposts, Or.inl hsame⟩

theorem visitPickleback_maySend (h : Ready overflowChecks config c) (hposts : c.pickleback.Posts P)
    {packets : List (List UInt8)} (hcall : c.visitPickleback = .ok (c', packets)) :
    c'.pickleback.outbox = [] ∧ c.SameSession c' ∧ ∀ packet ∈ packets, Reads P packet := by
  rw [Client.visitPickleback, h.idle.visitPacketsToSend] at hcall
  cases hcall
  exact ⟨rfl, ⟨rfl, rfl, rfl, rfl, rfl, rfl, rfl, rfl, rfl⟩, hposts⟩

/-- **What a client sends** is what its state lets it say, and the outbox is empty afterwards. -/
theorem Ready.visitPacketsToSend_maySend (h : Ready overflowChecks config c)
    (hempty : c.pickleback.outbox = [])
    {sent : List (SocketAddr × List UInt8)} (hcall : c.visitPacketsToSend = .ok (c', sent)) :
    c'.pickleback.outbox = [] ∧ (∀ packet ∈ sent, Reads c.MaySend packet.2) ∧
      (c.SameSession c' ∨ (c.state = .selfInitiatedDisconnect ∧
        c'.state = .disconnected .normal)) := by
  rw [Client.visitPacketsToSend] at hcall
  split at hcall
  · cases hcall
    exact ⟨hempty, fun _ hmem => (by cases hmem),
      Or.inl ⟨rfl, rfl, rfl, rfl, rfl, rfl, rfl, rfl, rfl⟩⟩
  · next serverAddr _ =>
    obtain ⟨c₁, keepaliveNeeded, hstate, hready, hneeded⟩ := h.sendForState
    obtain ⟨hposts, hsame⟩ := h.sendForState_maySend (Endpoint.posts_of_nil hempty) hstate
    obtain ⟨c₂, packets, hvisit, hready₂, -⟩ := hready.visitPickleback
    obtain ⟨hempty₂, hsame₂, hpackets⟩ := visitPickleback_maySend hready hposts hvisit
    have hfirst : ∀ packet ∈ packets.map fun packet => (serverAddr, packet),
      Reads c.MaySend packet.2 := by
      intro packet hmem
      obtain ⟨bytes, hbytes, rfl⟩ := List.mem_map.mp hmem
      exact hpackets bytes hbytes
    have hend : c.SameSession c₂ ∨
      (c.state = .selfInitiatedDisconnect ∧ c₂.state = .disconnected .normal) := by
      refine hsame.imp (fun hsame => hsame.trans hsame₂) fun hdisc =>
        ⟨hdisc.1, hsame₂.state.trans hdisc.2⟩
    simp only [hstate, hvisit] at hcall
    split at hcall
    · next hcond =>
      have hconnected : c₂.state = .connected := hsame₂.state.trans (hneeded hcond.2)
      obtain hend | ⟨-, hdisc⟩ := hend
      · obtain ⟨clientSalt, serverSalt, -, -, hxor, -⟩ :=
          hready₂.consistent.talking (Or.inr (Or.inl hconnected))
        obtain ⟨c₃, done, hsend, hsame₃⟩ := c₂.exists_sendWithSalt .keepAlive hxor
          (fun header salt => .keepAlive header salt 0) fun header => ⟨_, rfl⟩
        have hposts₃ : c₃.pickleback.Posts c.MaySend := by
          refine posts_sendWithSalt (Endpoint.posts_of_nil hempty₂) hxor ?_ ?_ hsend
          · exact ⟨fun _ => rfl, fun _ => rfl, fun _ _ => rfl⟩
          · exact fun _ => ⟨hend.state.symm.trans hconnected, hend.xorSalt.symm.trans hxor⟩
        have hready₃ := hready₂.sameSession hsame₃ (by simp [hconnected])
        obtain ⟨c₄, packets₄, hvisit₄, -⟩ := hready₃.visitPickleback
        obtain ⟨hempty₄, hsame₄, hpackets₄⟩ := visitPickleback_maySend hready₃ hposts₃ hvisit₄
        simp only [hsend, hvisit₄] at hcall
        cases hcall
        refine ⟨hempty₄, ?_, Or.inl ((hend.trans hsame₃).trans hsame₄)⟩
        intro packet hmem
        rcases List.mem_append.mp hmem with hmem | hmem
        · exact hfirst packet hmem
        · obtain ⟨bytes, hbytes, rfl⟩ := List.mem_map.mp hmem
          exact hpackets₄ bytes hbytes
      · rw [hconnected] at hdisc
        cases hdisc
    · cases hcall
      exact ⟨hempty₂, hfirst, hend⟩

end Client

end Pickleback
