/-
  What a channel hands on (`sc_channel_inbound`, `include/sc/channel.h`), and the list test the
  channels share (`src/channels/orchestrator.c`).

  A message names its channel, its conversation, a thread that may be empty, its sender, and an
  identifier.  Channels fill in fallbacks where a sender leaves something out, so a filled field does
  not say that the sender wrote it.
-/
import SmolClaw.Core.Status

namespace SmolClaw.Channels

/-- `sc_channel_inbound`, without the owned copies of its texts. -/
structure ChannelInbound where
  messageId : Bytes := []
  channelName : Bytes := []
  platformAccountId : Bytes := []
  conversationId : Bytes := []
  threadId : Bytes := []
  senderId : Bytes := []
  text : Bytes := []
  replyToMessageId : Bytes := []
  attachmentMediaType : Bytes := []
  attachmentName : Bytes := []
  attachmentStoragePath : Bytes := []
  attachmentSizeBytes : Nat := 0
  timestampUnixSecs : Int := 0
  timestampTrusted : Bool := false
  attachmentTemporary : Bool := false
  cancelPrevious : Bool := false
  disableMemory : Bool := false
  deriving DecidableEq, Repr

/-- `string_vec_contains_wildcard_or_value`: an empty list allows everything. -/
def stringVecContainsWildcardOrValue (vec : List Bytes) (value : Bytes) : Bool :=
  vec.isEmpty || vec.contains (str "*") || vec.contains value

/-- Where the list is a real one, only its values pass. -/
theorem contains_of_strict {vec : List Bytes} {value : Bytes} (hne : vec ≠ []) (hwild : str "*" ∉ vec) :
    stringVecContainsWildcardOrValue vec value = true ↔ value ∈ vec := by
  have hempty : vec.isEmpty = false := by
    cases vec with
    | nil => exact absurd rfl hne
    | cons _ _ => rfl
  have hstar : vec.contains (str "*") = false := by
    rw [Bool.eq_false_iff]
    intro h
    exact hwild (List.contains_iff_mem.mp h)
  rw [stringVecContainsWildcardOrValue, hempty, hstar, Bool.false_or, Bool.false_or,
    List.contains_iff_mem]

end SmolClaw.Channels
