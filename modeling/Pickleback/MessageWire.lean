import Pickleback.Queue

/-!
# Messages on the wire

What `Message::new_outbound` writes, `Message::parse` reads back, one message after the other until
no bytes remain. There is one exception. The size mode of a message is chosen by the length of its
payload, and it also decides whether the index and the number of fragments take one byte each or
two. So the last fragment of a message, when it is short, writes both numbers in one byte each,
whatever their size: from 256 fragments on they are cut off.

## Main definitions

* `MessageContent` — what a message says, as it is given to `new_outbound` and as it is read
* `MessageContent.WellFormed` — what the send path passes to `new_outbound`
* `MessageContent.Truncated` — a short last fragment of 256 or more
* `Message.parseAll` — parsing until no bytes remain

## Main results

* `Message.parse_encodes` — a message that is not truncated is read back
* `parseAll_buildAll_iff` — a list of messages is read back if and only if none of them is truncated
-/

namespace Pickleback

open ByteCodec

/-- What a message says: the arguments of `Message::new_outbound`, and the fields of a parsed
message. -/
structure MessageContent where
  id : MessageId
  channel : UInt8
  payload : List UInt8
  fragment : Option Fragment
  deriving DecidableEq, Repr

/-- What a parsed message says; its buffer holds the payload alone. -/
def Message.content (m : Message) : MessageContent := ⟨m.id, m.channel, m.buffer.data, m.fragment⟩

/-- `m` is an outbound message that says `c`: its buffer holds the headers and the payload. -/
def Message.Writes (m : Message) (c : MessageContent) : Prop :=
  m.id = c.id ∧ m.channel = c.channel ∧ m.fragment = c.fragment ∧ m.Encodes c.payload

/-! ### Header bytes -/

/-- The three parts of the prefix byte can be told apart. -/
theorem Message.prefixByte_spec {channel : UInt8} (h : channel.toNat < 32)
    (fragment : Option Fragment) (mode : MessageSizeMode) :
    prefixByte fragment mode channel >>> 3 = channel ∧
      (prefixByte fragment mode channel &&& 1 != 0) = fragment.isSome ∧
      (prefixByte fragment mode channel &&& 2 != 0) = decide (mode = .large) := by
  have key : ∀ n : Fin 32, ∀ f s : Bool,
      ((if f then (1 : UInt8) else 0) ||| (if s then (2 : UInt8) else 0) |||
          (UInt8.ofNat n.val <<< (3 : UInt8))) >>> (3 : UInt8) = UInt8.ofNat n.val ∧
        (((if f then (1 : UInt8) else 0) ||| (if s then (2 : UInt8) else 0) |||
          (UInt8.ofNat n.val <<< (3 : UInt8))) &&& 1 != 0) = f ∧
        (((if f then (1 : UInt8) else 0) ||| (if s then (2 : UInt8) else 0) |||
          (UInt8.ofNat n.val <<< (3 : UInt8))) &&& 2 != 0) = s := by
    decide
  have hc : UInt8.ofNat channel.toNat = channel := UInt8.ofNat_toNat
  have := key ⟨channel.toNat, h⟩ fragment.isSome (decide (mode = .large))
  simp only [hc, decide_eq_true_eq] at this
  exact this

namespace Fragment

/-- The numbers fit the places that the size mode gives them. -/
def Fits (f : Fragment) : MessageSizeMode → Prop
  | .small => f.index.toNat < 256 ∧ f.numFragments.toNat < 256
  | .large => True

theorem toUInt16_toUInt8 {n : UInt16} (h : n.toNat < 256) : n.toUInt8.toUInt16 = n := by
  rw [← UInt16.toNat_inj]
  simpa using h

/-- The bytes that hold the two numbers. -/
def numbers (f : Fragment) : MessageSizeMode → List UInt8
  | .small => [f.index.toUInt8, f.numFragments.toUInt8]
  | .large => writeU16 f.index ++ writeU16 f.numFragments

/-- What is written: the numbers, and for the last fragment the length of its payload. -/
theorem writeHeader_eq_ok {f : Fragment} {payloadLen : UInt16} {mode : MessageSizeMode}
    {bytes : List UInt8} (h : f.writeHeader payloadLen mode = .ok bytes) :
    (f.isLast = true ∧ bytes = f.numbers mode ++ writeU16 payloadLen) ∨
      (f.isLast = false ∧ payloadLen = 1024 ∧ bytes = f.numbers mode) := by
  cases hlast : f.isLast with
  | true =>
    simp only [writeHeader, hlast, if_true] at h
    cases h
    exact Or.inl ⟨rfl, by cases mode <;> rfl⟩
  | false =>
    by_cases hlen : payloadLen = 1024
    · subst hlen
      simp only [writeHeader, hlast, Bool.false_eq_true, if_false, bne_self_eq_false] at h
      cases h
      exact Or.inr ⟨rfl, rfl, by cases mode <;> rfl⟩
    · simp [writeHeader, hlast, hlen] at h

theorem parseNumbers_numbers {f : Fragment} {mode : MessageSizeMode} (h : f.Fits mode)
    (rest : List UInt8) :
    parseNumbers mode (f.numbers mode ++ rest) = some (f.index, f.numFragments, rest) := by
  cases mode with
  | small => simp [parseNumbers, numbers, toUInt16_toUInt8 h.1, toUInt16_toUInt8 h.2]
  | large => simp [parseNumbers, numbers]

/-- A fragment header is read back. -/
theorem parseHeader_writeHeader {f : Fragment} {payloadLen : UInt16} {mode : MessageSizeMode}
    {bytes : List UInt8} {id : MessageId} (overflowChecks : Bool) (hfits : f.Fits mode)
    (hpos : f.numFragments ≠ 0) (hparent : f.parentId = id - f.index)
    (h : f.writeHeader payloadLen mode = .ok bytes) (rest : List UInt8) :
    parseHeader overflowChecks (bytes ++ rest) mode id = .ok (f, payloadLen, rest) := by
  have hzero : (f.numFragments == 0) = false := by simpa using hpos
  have hf : (⟨f.index, f.numFragments, id - f.index⟩ : Fragment) = f := by rw [← hparent]
  rcases writeHeader_eq_ok h with ⟨hlast, rfl⟩ | ⟨hlast, rfl, rfl⟩
  · rw [isLast] at hlast
    rw [parseHeader, List.append_assoc, parseNumbers_numbers hfits]
    simp only [hzero, Bool.and_false, Bool.false_eq_true, if_false,
      hlast, if_true, readU16_writeU16, hf]
  · rw [isLast] at hlast
    rw [parseHeader, parseNumbers_numbers hfits]
    simp only [hzero, Bool.and_false, Bool.false_eq_true, if_false, hlast, hf]

end Fragment

namespace MessageContent

/-- What the send path passes to `Message::new_outbound`. -/
structure WellFormed (c : MessageContent) : Prop where
  channel : c.channel.toNat < maxChannels
  payload : c.payload.length ≤ 1024
  fragment : ∀ f, c.fragment = some f → f.index < f.numFragments ∧ 2 ≤ f.numFragments.toNat ∧
    f.numFragments.toNat ≤ maxFragments ∧ f.parentId = c.id - f.index ∧
    (f.isLast = false → c.payload.length = 1024)

/-- The last fragment of at least 256, with a payload that puts it into the small size mode. -/
def Truncated (c : MessageContent) : Prop :=
  ∃ f, c.fragment = some f ∧ f.isLast = true ∧ c.payload.length ≤ 255 ∧ 256 ≤ f.numFragments.toNat

instance (c : MessageContent) : Decidable c.Truncated :=
  match h : c.fragment with
  | none => isFalse fun ⟨f, hf, _⟩ => by rw [h] at hf; cases hf
  | some f => decidable_of_iff
      (f.isLast = true ∧ c.payload.length ≤ 255 ∧ 256 ≤ f.numFragments.toNat)
      ⟨fun hf => ⟨f, h, hf⟩, fun ⟨f', hf', hrest⟩ => by
        rw [h] at hf'
        cases hf'
        exact hrest⟩

/-- A content as a message to send. -/
def build (pool : BufPool) (c : MessageContent) : Except Panic (Message × BufPool) :=
  Message.newOutbound pool c.id c.channel c.payload c.fragment

/-- Several of them, each from the pool that the one before has left. -/
def buildAll : BufPool → List MessageContent → Except Panic (List Message × BufPool)
  | pool, [] => .ok ([], pool)
  | pool, c :: cs =>
    match c.build pool with
    | .error p => .error p
    | .ok (m, pool) => (buildAll pool cs).map fun r => (m :: r.1, r.2)

/-- Neither number of a fragment that is not truncated is cut off. -/
theorem WellFormed.fits {c : MessageContent} (h : c.WellFormed) (ht : ¬ c.Truncated) {f : Fragment}
    (hf : c.fragment = some f) : f.Fits (.ofLength c.payload.length) := by
  obtain ⟨hindex, -, -, -, hlen⟩ := h.fragment f hf
  rw [UInt16.lt_iff_toNat_lt] at hindex
  by_cases hsmall : c.payload.length > 255
  · rw [MessageSizeMode.ofLength, if_pos hsmall]
    trivial
  · rw [MessageSizeMode.ofLength, if_neg hsmall]
    have hlast : f.isLast = true := by
      cases hl : f.isLast with
      | true => rfl
      | false =>
        have := hlen hl
        omega
    have hnum : ¬ 256 ≤ f.numFragments.toNat := fun hn => ht ⟨f, hf, hlast, by omega, hn⟩
    exact ⟨by omega, by omega⟩

end MessageContent

/-! ### One message -/

namespace Message

/-- The header writer refuses nothing that is well formed. -/
theorem exists_writeHeaders {c : MessageContent} (h : c.WellFormed) (mode : MessageSizeMode) :
    ∃ headers, writeHeaders c.id c.fragment mode c.channel c.payload.length = .ok headers := by
  cases hf : c.fragment with
  | none => cases mode <;> exact ⟨_, rfl⟩
  | some f =>
    obtain ⟨-, -, -, -, hlen⟩ := h.fragment f hf
    cases hlast : f.isLast with
    | true => simp [writeHeaders, Fragment.writeHeader, hlast, Except.map]
    | false =>
      have hlen' := hlen hlast
      simp [writeHeaders, Fragment.writeHeader, hlast, hlen', Except.map]

/-- What the send path passes to `new_outbound` is built. -/
theorem exists_build {c : MessageContent} (h : c.WellFormed) (pool : BufPool) :
    ∃ m pool', c.build pool = .ok (m, pool') ∧ m.Writes c := by
  have hchan : c.channel < 64 := by
    have := h.channel
    rw [maxChannels] at this
    rw [UInt8.lt_iff_toNat_lt]
    exact lt_trans this (by decide)
  obtain ⟨headers, hheaders⟩ := exists_writeHeaders h (.ofLength c.payload.length)
  have hbuild : ∃ r, c.build pool = .ok r := by
    rw [MessageContent.build, newOutbound, if_pos ⟨hchan, h.payload⟩]
    simp only [hheaders]
    exact ⟨_, rfl⟩
  obtain ⟨⟨m, pool'⟩, hbuild⟩ := hbuild
  exact ⟨m, pool', hbuild, newOutbound_eq_ok hbuild⟩

theorem toNat_ofNat_length {payload : List UInt8} (h : payload.length ≤ 1024) :
    (UInt16.ofNat payload.length).toNat = payload.length := by
  rw [UInt16.toNat_ofNat']
  exact Nat.mod_eq_of_lt (by omega)

/-- The headers of a message are read back, with the length of its payload. -/
theorem parseHeaders_writeHeaders {c : MessageContent} (overflowChecks : Bool) (hwf : c.WellFormed)
    (ht : ¬ c.Truncated) {headers : List UInt8}
    (h : writeHeaders c.id c.fragment (.ofLength c.payload.length) c.channel c.payload.length
      = .ok headers) (rest : List UInt8) :
    parseHeaders overflowChecks (headers ++ rest)
      = .ok (c.id, .ofLength c.payload.length, c.channel, c.fragment,
          UInt16.ofNat c.payload.length, rest) := by
  obtain ⟨hchan, hfrag, hmode⟩ := prefixByte_spec (by simpa [maxChannels] using hwf.channel)
    c.fragment (.ofLength c.payload.length)
  have hmode' : (if prefixByte c.fragment (.ofLength c.payload.length) c.channel &&& 2 != 0 then
      MessageSizeMode.large else .small) = .ofLength c.payload.length := by
    rw [hmode]
    cases MessageSizeMode.ofLength c.payload.length <;> rfl
  cases hf : c.fragment with
  | none =>
    rw [hf] at h hchan hfrag hmode'
    rw [parseHeaders]
    by_cases hlarge : c.payload.length > 255
    · simp only [MessageSizeMode.ofLength, if_pos hlarge, writeHeaders] at h hchan hfrag hmode' ⊢
      cases h
      simp only [List.cons_append, List.append_assoc, readU8_cons, readU16_writeU16, hchan, hfrag,
        hmode', Option.isSome_none, Bool.false_eq_true, if_false]
    · simp only [MessageSizeMode.ofLength, if_neg hlarge, writeHeaders] at h hchan hfrag hmode' ⊢
      cases h
      have hlen : (UInt8.ofNat c.payload.length).toUInt16 = UInt16.ofNat c.payload.length := by
        rw [← UInt16.toNat_inj]
        simp only [UInt8.toNat_toUInt16, UInt8.toNat_ofNat', UInt16.toNat_ofNat']
        omega
      simp only [List.cons_append, List.nil_append, List.append_assoc,
        readU8_cons, readU16_writeU16,
        hchan, hfrag, hmode', Option.isSome_none, Bool.false_eq_true, if_false, hlen]
  | some f =>
    obtain ⟨hindex, htwo, -, hparent, -⟩ := hwf.fragment f hf
    have hpos : f.numFragments ≠ 0 := by
      rintro hzero
      rw [hzero] at htwo
      exact absurd htwo (by decide)
    rw [hf] at h hchan hfrag hmode'
    cases hw : f.writeHeader (UInt16.ofNat c.payload.length) (.ofLength c.payload.length) with
    | error e => simp [writeHeaders, hw, Except.map] at h
    | ok bytes =>
      simp only [writeHeaders, hw, Except.map, Except.ok.injEq] at h
      subst h
      have hparse := Fragment.parseHeader_writeHeader overflowChecks
        (hwf.fits ht hf) hpos hparent hw rest
      rw [parseHeaders]
      simp only [List.cons_append, List.append_assoc, readU8_cons, readU16_writeU16, hchan, hfrag,
        hmode', Option.isSome_some, if_true, hparse]

/-- **One message is read back**, and nothing of what follows it is touched. -/
theorem parse_encodes {c : MessageContent} (overflowChecks : Bool) (pool : BufPool)
    (hwf : c.WellFormed) (ht : ¬ c.Truncated) {m : Message} (h : m.Writes c) (rest : List UInt8) :
    ∃ pool' m', parse overflowChecks pool (m.buffer.data ++ rest) = (pool', .ok (m', rest)) ∧
      m'.content = c := by
  obtain ⟨hid, hchan, hfrag, -, hlen, hmode, headers, hheaders, hdata⟩ := h
  rw [hid, hchan, hfrag, hmode] at hheaders
  have hsize := toNat_ofNat_length hlen
  have hparse := parseHeaders_writeHeaders overflowChecks hwf ht hheaders (c.payload ++ rest)
  rw [hdata, List.append_assoc, parse, hparse]
  simp only [hsize, List.length_append]
  rw [if_neg (by omega)]
  refine ⟨_, _, by rw [List.drop_left], ?_⟩
  simp [content, BufPool.data_getBuffer]

/-- The number of fragments of a truncated message is not read back. -/
theorem parse_truncated {c : MessageContent} (overflowChecks : Bool) (pool : BufPool)
    (hwf : c.WellFormed) (ht : c.Truncated) {m : Message} (h : m.Writes c)
    {rest rest' : List UInt8} {pool' : BufPool} {m' : Message}
    (hparse : parse overflowChecks pool (m.buffer.data ++ rest) = (pool', .ok (m', rest'))) :
    m'.content ≠ c := by
  obtain ⟨f, hf, hlast, hlen255, hnum⟩ := ht
  obtain ⟨hid, hchan, hfrag, -, hlen, hmode, headers, hheaders, hdata⟩ := h
  rw [hid, hchan, hfrag, hmode] at hheaders
  obtain ⟨hchan', hfrag', hmode'⟩ := prefixByte_spec (by simpa [maxChannels] using hwf.channel)
    c.fragment (.ofLength c.payload.length)
  have hsmall : MessageSizeMode.ofLength c.payload.length = .small := by
    rw [MessageSizeMode.ofLength, if_neg (by omega)]
  rw [hf, hsmall] at hheaders hfrag' hmode'
  simp only [writeHeaders, Fragment.writeHeader, hlast, if_true, Except.map, Except.ok.injEq]
    at hheaders
  subst hheaders
  intro hcontent
  have hfield : m'.fragment = some f := by
    rw [← hf, ← hcontent]
    rfl
  -- The fragment that was read has the low byte of the number of fragments.
  have hread : m'.fragment.map Fragment.numFragments = some f.numFragments.toUInt8.toUInt16 := by
    rw [hdata, parse] at hparse
    split at hparse
    · cases hparse
    · next id mode channel fragment payloadSize tail hh =>
      have hfragment : fragment.map Fragment.numFragments =
        some f.numFragments.toUInt8.toUInt16 := by
        simp only [parseHeaders, List.cons_append, List.append_assoc, readU8_cons,
          readU16_writeU16, hfrag', hmode', Option.isSome_some, if_true] at hh
        simp only [Fragment.parseHeader, Fragment.parseNumbers, List.nil_append, readU8_cons,
          Option.bind_some, Option.map_some, reduceCtorEq, decide_false,
            Bool.false_eq_true, if_false] at hh
        grind
      dsimp only at hparse
      split at hparse
      · cases hparse
      · cases hparse
        exact hfragment
  rw [hfield, Option.map_some, Option.some.injEq] at hread
  have := congrArg UInt16.toNat hread
  simp only [UInt8.toNat_toUInt16, UInt16.toNat_toUInt8] at this
  omega

end Message

/-! ### Many messages -/

theorem Fragment.length_lt_of_parseHeader {overflowChecks : Bool} {bs rest : List UInt8}
    {mode : MessageSizeMode} {id : MessageId} {f : Fragment} {size : UInt16}
    (h : parseHeader overflowChecks bs mode id = .ok (f, size, rest)) :
    rest.length < bs.length := by
  have hnumbers : ∀ {i n tail}, parseNumbers mode bs = some (i, n, tail) →
    tail.length < bs.length := by
    intro i n tail hn
    cases mode with
    | small =>
      simp only [parseNumbers, Option.bind_eq_some_iff, Option.map_eq_some_iff] at hn
      obtain ⟨⟨b, bs₁⟩, h₁, ⟨b', bs₂⟩, h₂, heq⟩ := hn
      cases heq
      have h₁' := congrArg List.length (readU8_eq_some h₁)
      have h₂' := congrArg List.length (readU8_eq_some h₂)
      simp only [List.length_cons] at h₁' h₂'
      show bs₂.length < bs.length
      omega
    | large =>
      simp only [parseNumbers, Option.bind_eq_some_iff, Option.map_eq_some_iff] at hn
      obtain ⟨⟨x, bs₁⟩, h₁, ⟨x', bs₂⟩, h₂, heq⟩ := hn
      cases heq
      have h₁' := readU16_eq_some h₁
      have h₂' := readU16_eq_some h₂
      show bs₂.length < bs.length
      dsimp only at h₂'
      omega
  rw [parseHeader] at h
  split at h
  · cases h
  · next hn =>
    have hlt := hnumbers hn
    split at h
    · cases h
    · dsimp only at h
      split at h
      · split at h
        · cases h
        · next hsize =>
          cases h
          have := readU16_eq_some hsize
          omega
      · cases h
        exact hlt

namespace Message

theorem length_lt_of_parseHeaders {overflowChecks : Bool} {bs rest : List UInt8} {id : MessageId}
    {mode : MessageSizeMode} {channel : UInt8} {fragment : Option Fragment} {size : UInt16}
    (h : parseHeaders overflowChecks bs = .ok (id, mode, channel, fragment, size, rest)) :
    rest.length < bs.length := by
  rw [parseHeaders] at h
  split at h
  · cases h
  · next b bs₁ hb =>
    have h₁ : bs.length = bs₁.length + 1 := by
      rw [readU8_eq_some hb]
      rfl
    dsimp only at h
    split at h
    · cases h
    · next x bs₂ hx =>
      have h₂ := readU16_eq_some hx
      split at h
      · split at h
        · cases h
        · next hf =>
          cases h
          have := Fragment.length_lt_of_parseHeader hf
          omega
      · split at h
        · split at h
          · cases h
          · next hsize =>
            cases h
            have h₃ := congrArg List.length (readU8_eq_some hsize)
            simp only [List.length_cons] at h₃
            omega
        · split at h
          · cases h
          · next hsize =>
            cases h
            have := readU16_eq_some hsize
            omega

/-- Parsing takes at least one byte. -/
theorem length_lt_of_parse {overflowChecks : Bool} {pool pool' : BufPool} {bs rest : List UInt8}
    {m : Message} (h : parse overflowChecks pool bs = (pool', .ok (m, rest))) :
    rest.length < bs.length := by
  rw [parse] at h
  split at h
  · cases h
  · next hh =>
    dsimp only at h
    split at h
    · cases h
    · cases h
      have := length_lt_of_parseHeaders hh
      rw [List.length_drop]
      omega

/-- `Message::parse` until no bytes remain, as `process_incoming_packet` calls it. The bound on the
number of rounds is never reached when it is the number of bytes: `parseAll_ne_nontermination`. -/
def parseAll (overflowChecks : Bool) : ℕ → BufPool → List UInt8 → Except Fault (List Message)
  | 0, _, bs => if bs.isEmpty then .ok [] else .error (.panic .nontermination)
  | rounds + 1, pool, bs =>
    if bs.isEmpty then .ok []
    else match parse overflowChecks pool bs with
      | (_, .error f) => .error f
      | (pool, .ok (m, rest)) => (parseAll overflowChecks rounds pool rest).map fun ms => m :: ms

theorem parseHeaders_ne_nontermination {overflowChecks : Bool} {bs : List UInt8} :
    parseHeaders overflowChecks bs ≠ .error (.panic .nontermination) := by
  intro h
  unfold parseHeaders Fragment.parseHeader at h
  grind

theorem parseAll_ne_nontermination {overflowChecks : Bool} {rounds : ℕ} {pool : BufPool}
    {bs : List UInt8} (h : bs.length ≤ rounds) :
    parseAll overflowChecks rounds pool bs ≠ .error (.panic .nontermination) := by
  induction rounds generalizing pool bs with
  | zero =>
    have hnil : bs = [] := List.length_eq_zero_iff.mp (by omega)
    simp [parseAll, hnil]
  | succ rounds ih =>
    rw [parseAll]
    split
    · simp
    · split
      · next f hparse =>
        rintro heq
        cases heq
        rw [parse] at hparse
        split at hparse
        · next f hf =>
          simp only [Prod.mk.injEq, Except.error.injEq] at hparse
          exact parseHeaders_ne_nontermination (hparse.2 ▸ hf)
        · dsimp only at hparse
          split at hparse <;> simp at hparse
      · next pool' m rest hparse =>
        have hlt := length_lt_of_parse hparse
        have hrest : parseAll overflowChecks rounds pool' rest ≠ .error (.panic .nontermination) :=
          ih (by omega)
        intro heq
        cases htail : parseAll overflowChecks rounds pool' rest with
        | error f =>
          rw [htail] at heq hrest
          simp only [Except.map, Except.error.injEq] at heq
          exact hrest (by rw [heq])
        | ok ms =>
          rw [htail] at heq
          cases heq

end Message

/-- The messages of a list are built, and their buffers are read back one by one. -/
theorem exists_buildAll {cs : List MessageContent} (h : ∀ c ∈ cs, c.WellFormed) (pool : BufPool) :
    ∃ ms pool', MessageContent.buildAll pool cs = .ok (ms, pool') ∧
      List.Forall₂ Message.Writes ms cs := by
  induction cs generalizing pool with
  | nil => exact ⟨[], pool, rfl, .nil⟩
  | cons c cs ih =>
    obtain ⟨m, pool₁, hbuild, hm⟩ := Message.exists_build (h c (List.mem_cons_self ..)) pool
    obtain ⟨ms, pool₂, hall, hms⟩ := ih (fun c hc => h c (List.mem_cons_of_mem _ hc)) pool₁
    refine ⟨m :: ms, pool₂, ?_, .cons hm hms⟩
    rw [MessageContent.buildAll, hbuild]
    simp only [hall, Except.map]

/-- Reading back what the buffers of a list of messages say. -/
theorem parseAll_content_iff {cs : List MessageContent} {ms : List Message}
    (hms : List.Forall₂ Message.Writes ms cs) (h : ∀ c ∈ cs, c.WellFormed)
    (overflowChecks : Bool) {rounds : ℕ} (pool : BufPool) (hrounds : ms.length ≤ rounds) :
    (∃ ms', Message.parseAll overflowChecks rounds pool (ms.flatMap fun m => m.buffer.data) =
      .ok ms' ∧
      ms'.map Message.content = cs) ↔ ∀ c ∈ cs, ¬ c.Truncated := by
  induction hms generalizing rounds pool with
  | nil =>
    cases rounds <;> simp [Message.parseAll]
  | @cons m c ms cs hm hms ih =>
    have hwf := h c (List.mem_cons_self ..)
    have hne : (m.buffer.data ++ ms.flatMap fun m => m.buffer.data).isEmpty = false := by
      have := hm.2.2.2.length_data.1
      cases hd : m.buffer.data with
      | nil => simp [hd] at this
      | cons b bs => rfl
    obtain ⟨rounds, rfl⟩ : ∃ n, rounds = n + 1 := ⟨rounds - 1, by
      rw [List.length_cons] at hrounds
      omega⟩
    rw [List.flatMap_cons, Message.parseAll, hne]
    simp only [Bool.false_eq_true, if_false]
    by_cases ht : c.Truncated
    · refine iff_of_false ?_ fun hall => hall c (List.mem_cons_self ..) ht
      rintro ⟨ms', hparse, hcontent⟩
      split at hparse
      · cases hparse
      · next pool' m' rest' hfirst =>
        have hdiff := Message.parse_truncated overflowChecks pool hwf ht hm hfirst
        cases htail : Message.parseAll overflowChecks rounds pool' rest' with
        | error f => rw [htail] at hparse; cases hparse
        | ok ms'' =>
          rw [htail] at hparse
          cases hparse
          rw [List.map_cons, List.cons.injEq] at hcontent
          exact hdiff hcontent.1
    · obtain ⟨pool', m', hfirst, hcontent⟩ :=
        Message.parse_encodes overflowChecks pool hwf ht hm
          (ms.flatMap fun m => m.buffer.data)
      have hless : ms.length ≤ rounds := by
        rw [List.length_cons] at hrounds
        omega
      have hrest := ih (fun c hc => h c (List.mem_cons_of_mem _ hc)) pool' hless
      simp only [hfirst, List.forall_mem_cons]
      rw [← hrest]
      constructor
      · rintro ⟨ms', hparse, hmap⟩
        cases htail : Message.parseAll overflowChecks rounds pool'
          (ms.flatMap fun m => m.buffer.data) with
        | error f => rw [htail] at hparse; cases hparse
        | ok ms'' =>
          rw [htail] at hparse
          cases hparse
          rw [List.map_cons, List.cons.injEq] at hmap
          exact ⟨ht, ms'', rfl, hmap.2⟩
      · rintro ⟨-, ms', hparse, hmap⟩
        rw [hparse]
        exact ⟨m' :: ms', rfl, by rw [List.map_cons, hcontent, hmap]⟩

/-- **The wire format round trip.** Messages as the send path builds them are all built, and parsing
the concatenation of their buffers until no bytes remain gives back what they say, in order, if and
only if none of them is the short last fragment of 256 or more. -/
theorem parseAll_buildAll_iff (overflowChecks : Bool) (pool pool' : BufPool)
    (cs : List MessageContent) (h : ∀ c ∈ cs, c.WellFormed) :
    ∃ ms pool₁, MessageContent.buildAll pool cs = .ok (ms, pool₁) ∧
      ((∃ ms', Message.parseAll overflowChecks (ms.flatMap fun m => m.buffer.data).length pool'
          (ms.flatMap fun m => m.buffer.data) = .ok ms' ∧ ms'.map Message.content = cs) ↔
        ∀ c ∈ cs, ¬ c.Truncated) := by
  obtain ⟨ms, pool₁, hbuild, hms⟩ := exists_buildAll h pool
  refine ⟨ms, pool₁, hbuild, parseAll_content_iff hms h overflowChecks pool' ?_⟩
  rw [List.length_flatMap]
  clear hbuild h
  induction hms with
  | nil => simp
  | cons hm _ ih =>
    have := hm.2.2.2.length_data.1
    rw [List.map_cons, List.sum_cons, List.length_cons]
    omega

/-- A message, a long last fragment and an empty one. -/
def sampleContents : List MessageContent := [
  ⟨7, 1, [1, 2, 3], none⟩, ⟨65535, 0, List.replicate 300 5, some ⟨1, 2, 65534⟩⟩,
  ⟨3, 31, [], some ⟨2, 3, 1⟩⟩]

theorem parseAll_buildAll_iff_sample : ∃ ms pool₁,
    MessageContent.buildAll BufPool.fullPacketsOnly sampleContents = .ok (ms, pool₁) ∧
      ∃ ms', Message.parseAll true (ms.flatMap fun m => m.buffer.data).length
        BufPool.fullPacketsOnly
        (ms.flatMap fun m => m.buffer.data) = .ok ms' ∧
          ms'.map Message.content = sampleContents := by
  have hwf : ∀ c ∈ sampleContents, c.WellFormed := by
    intro c hc
    simp only [sampleContents, List.mem_cons, List.not_mem_nil, or_false] at hc
    rcases hc with rfl | rfl | rfl
    · exact ⟨by decide, by decide, fun f hf => by cases hf⟩
    · refine ⟨by decide, by decide +kernel, fun f hf => ?_⟩
      cases hf
      decide +kernel
    · refine ⟨by decide, by decide, fun f hf => ?_⟩
      cases hf
      decide
  obtain ⟨ms, pool₁, hbuild, hiff⟩ :=
    parseAll_buildAll_iff true BufPool.fullPacketsOnly BufPool.fullPacketsOnly sampleContents hwf
  exact ⟨ms, pool₁, hbuild, hiff.mpr (by decide +kernel)⟩

/-- The last of 257 fragments, with a payload of one byte. -/
def lastOf257 : MessageContent := ⟨256, 0, [9], some ⟨256, 257, 0⟩⟩

/-- It is well formed, and what comes back is the first fragment of one. -/
theorem not_parseAll_lastOf257 : lastOf257.WellFormed ∧
    (MessageContent.buildAll BufPool.fullPacketsOnly [lastOf257]).map (fun r =>
      (Message.parseAll false (r.1.flatMap fun m => m.buffer.data).length BufPool.fullPacketsOnly
        (r.1.flatMap fun m => m.buffer.data)).map fun ms => ms.map Message.content)
      = .ok (.ok [⟨256, 0, [9], some ⟨0, 1, 256⟩⟩]) := by
  constructor
  · refine ⟨by decide, by decide, fun f hf => ?_⟩
    cases hf
    decide
  · decide +kernel

end Pickleback
