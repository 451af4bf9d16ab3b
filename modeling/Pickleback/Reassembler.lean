import Pickleback.Protocol.Message

/-!
# Reassembly of fragmented messages

`message_reassembler.rs` and `received_message.rs`. Fragments are collected under the id of their
message's first fragment, in a map from which an entry is removed only when it is complete.
-/

namespace Pickleback

/-- `ReceivedMessage`: a single message, or all fragments of one. -/
inductive ReceivedMessage where
  | single (message : Message)
  | fragmented (fragments : List Message)
  deriving DecidableEq, Repr

namespace ReceivedMessage

/-- `ReceivedMessage::id`; `none` where the source would panic on an empty or unfragmented list. -/
def id? : ReceivedMessage → Option MessageId
  | .single message => some message.id
  | .fragmented fragments => fragments.head?.bind fun m => m.fragment.map Fragment.parentId

/-- `ReceivedMessage::channel`; `none` where the source would panic on an empty list. -/
def channel? : ReceivedMessage → Option UInt8
  | .single message => some message.channel
  | .fragmented fragments => fragments.head?.map Message.channel

/-- `ReceivedMessage::payload_len`; `none` where the source would panic on an empty list. It asks a
message for its size, which is that of the payload with its headers. -/
def payloadLen? : ReceivedMessage → Option ℕ
  | .single message => some message.size
  | .fragmented fragments =>
    fragments.getLast?.map fun last => 1024 * (fragments.length - 1) + last.size

/-- What `ReceivedMessage::payload` reads. -/
def payload : ReceivedMessage → List UInt8
  | .single message => message.buffer.data
  | .fragmented fragments => fragments.flatMap fun m => m.buffer.data

end ReceivedMessage

/-- `IncompleteMessage`. -/
structure IncompleteMessage where
  numFragments : UInt16
  numReceivedFragments : UInt16
  fragments : List (Option Message)
  deriving DecidableEq, Repr

namespace IncompleteMessage

/-- `IncompleteMessage::new`. -/
def new (numFragments : UInt16) : Except Panic IncompleteMessage :=
  if ¬ numFragments.toNat ≤ maxFragments then .error .numFragmentsExceeded
  else if ¬ numFragments > 1 then .error .tooFewFragments
  else .ok ⟨numFragments, 0, List.replicate numFragments.toNat none⟩

/-- `IncompleteMessage::add_fragment`: whether this was the last missing one. -/
def addFragment (inc : IncompleteMessage) (fragIndex : UInt16) (message : Message) :
    Except Panic (Bool × IncompleteMessage) :=
  if ¬ fragIndex.toNat ≤ maxFragments then .error .fragIndexExceedsMax
  else if ¬ fragIndex < inc.numFragments then .error .fragIndexOutOfRange
  else if (inc.fragments.getD fragIndex.toNat none).isSome then .ok (false, inc)
  else
    let inc : IncompleteMessage := {
      numFragments := inc.numFragments
      numReceivedFragments := inc.numReceivedFragments + 1
      fragments := inc.fragments.set fragIndex.toNat (some message) }
    .ok (inc.numReceivedFragments == inc.numFragments, inc)

end IncompleteMessage

/-- `MessageReassembler`. -/
structure MessageReassembler where
  inProgress : MessageId → Option IncompleteMessage

namespace MessageReassembler

/-- `MessageReassembler::default()`. -/
def empty : MessageReassembler := ⟨fun _ => none⟩

/-- `into_iter().map(|opt| opt.expect(..)).collect()`. -/
def expectAll : List (Option Message) → Except Panic (List Message)
  | [] => .ok []
  | none :: _ => .error .missingFragment
  | some m :: rest => (expectAll rest).map fun ms => m :: ms

/-- The `ready` of `MessageReassembler::add_fragment`, with the partial message stored under the
parent id. A message begun by this fragment is never ready. -/
def store (r : MessageReassembler) (fragment : Fragment) (message : Message) :
    Except Panic (Bool × IncompleteMessage) :=
  match r.inProgress fragment.parentId with
  | some inc => inc.addFragment fragment.index message
  | none =>
    match IncompleteMessage.new fragment.numFragments with
    | .error p => .error p
    | .ok inc => (inc.addFragment fragment.index message).map fun r => (false, r.2)

/-- `MessageReassembler::add_fragment`. -/
def addFragment (r : MessageReassembler) (message : Message) :
    Except Panic (Option ReceivedMessage × MessageReassembler) :=
  match message.fragment with
  | none => .error .unfragmentedMessage
  | some fragment =>
    if fragment.numFragments > UInt16.ofNat maxFragments then .ok (none, r)
    else match r.store fragment message with
      | .error p => .error p
      | .ok (ready, inc) =>
        if ready then
          (expectAll inc.fragments).map fun fragments =>
            (some (.fragmented fragments),
              ⟨Function.update r.inProgress fragment.parentId none⟩)
        else .ok (none, ⟨Function.update r.inProgress fragment.parentId (some inc)⟩)

end MessageReassembler

end Pickleback
