/-
  What tools share (`src/tools/tool_common.c`): reading a string argument, cutting an output, and recording a
  receipt.

  A receipt is recorded if the context has a chain and the policy does not switch receipts off; its texts are
  the hash and the length of what is passed.  `toolRecordReceiptStatus_length` says when the chain grows.
-/
import SmolClaw.Core.Text
import SmolClaw.Core.Utf8
import SmolClaw.Core.WholeNumber
import SmolClaw.Json.Parse
import SmolClaw.Security.Receipts
import SmolClaw.Security.Requests

namespace SmolClaw.Tools

open Security

/-! ## Arguments -/

/-- `sc_tool_get_string_arg`: what the out parameter holds after it, and the status; `none` stands for a call
    without arguments. -/
def toolGetStringArg (args : Option Json) (name : String) : Bytes × Res Unit :=
  match args with
  | none => ([], Status.invalidArgument "sc.tool.args.invalid_argument")
  | some args =>
      match Json.asStr (args.objectGet (str name)) with
      | none => ([], Status.invalidArgument "sc.tool.args.missing_string")
      | some value =>
          (value,
            if value = [] then Status.invalidArgument "sc.tool.args.missing_string"
            else if value.contains 0 then Status.invalidArgument "sc.tool.args.embedded_nul"
            else if !strIsValidUtf8 value then Status.invalidArgument "sc.tool.args.invalid_utf8"
            else .ok ())

/-- What `%.*s` prints: the precision is an `int`, and a negative one is none. -/
def printedArg (value : Bytes) : Bytes :=
  let precision := value.length % 2 ^ 32
  (if precision < 2 ^ 31 then value.take precision else value).takeWhile (· ≠ 0)

/-! ## Output -/

/-- The limit of an output: 4096 bytes without a context, and with one that sets none. -/
def outputLimit : Option Nat → Nat
  | none => 4096
  | some 0 => 4096
  | some maxOutputBytes => maxOutputBytes

/-- The output `sc_tool_set_output` leaves in a result; the context is there with its limit or not. -/
def toolSetOutput (context : Option Nat) (text : Bytes) : Bytes :=
  if outputLimit context < text.length then text.take (outputLimit context) else text

/-! ## Receipts -/

/-- `sc_tool_context`, as far as the checks and the receipts of a tool read it; `receipts` says whether there
    is a chain, and the cancel token is there or not. -/
structure ToolContext where
  policy : Option RequestPolicy := none
  estop : Option EstopState := none
  receipts : Bool := true
  cancelRequested : Option Bool := none

/-- A C string fits the memory. -/
def sizedText (text : Bytes) : SizedBytes where
  bytes := text.take (2 ^ 64 - 1)
  fits := by
    have hle := List.length_take_le (2 ^ 64 - 1) text
    omega

/-- `receipt_summary` -/
def receiptSummary (value : Bytes) : Res SizedBytes :=
  let text := str "hash=" ++ bin2hex (u64Bytes (hashBytes hashInit value)).reverse ++ str " len=" ++
    decimal value.length
  if 64 ≤ text.length then Status.noMemory else .ok (sizedText text)

/-- The decision, the reason and the outcome in the receipt of a status. -/
def receiptDecision : Res Bytes → Bytes
  | .ok _ => str "allowed"
  | .error e => if e.code = .securityDenied then str "denied" else str "allowed"

def receiptReason : Res Bytes → Bytes
  | .ok _ => []
  | .error e => str e.errorKey

def receiptOutcome : Res Bytes → Bytes
  | .ok _ => str "ok"
  | .error e => if e.code = .securityDenied then str "denied" else str "error"

/-- A context keeps receipts. -/
def ToolContext.keepsReceipts (context : ToolContext) : Bool :=
  context.receipts && (context.policy.all fun policy => policy.receiptsEnabled)

section

variable (hmac : Digest → Bytes → Digest)

/-- `sc_tool_record_receipt_status`, whose own status is ignored: the chain after it. -/
def toolRecordReceiptStatus (context : ToolContext) (chain : ReceiptChain) (toolName argsSummary : Bytes)
    (outputSummary : Bytes) (toolStatus : Res Bytes) (clock : Res Int64) : ReceiptChain :=
  if !context.keepsReceipts then chain
  else
    match receiptSummary argsSummary, receiptSummary outputSummary with
    | .ok safeArgs, .ok safeOutput =>
        match receiptChainAppendEx hmac chain {
            toolName := sizedText toolName
            argsSummary := safeArgs
            outputSummary := safeOutput
            success := toolStatus.isOk
            policyDecision := sizedText (receiptDecision toolStatus)
            failureReason := sizedText (receiptReason toolStatus)
            outcome := sizedText (receiptOutcome toolStatus)
            clock := clock } with
        | .ok chain => chain
        | .error _ => chain
    | _, _ => chain

/-! ## When a receipt is recorded -/

theorem sizedText_ne_nil {text : Bytes} (h : text ≠ []) : (sizedText text).bytes ≠ [] := by
  intro hnil
  rcases List.take_eq_nil_iff.mp hnil with hzero | hempty
  · omega
  · exact h hempty

theorem decimalInt_length_le {k : Nat} {n : Int} (h : n.natAbs < 10 ^ (k + 1)) :
    (decimalInt n).length ≤ k + 2 := by
  have hle := decimal_length_le k n.natAbs h
  rw [decimalInt]
  split
  · rw [List.length_cons]
    omega
  · omega

/-- **A token always fits its buffer.** -/
theorem tokenText_length (endedAt : Int64) (digest : Digest) : (tokenText endedAt digest).length < 128 := by
  have hnumber : (endedAt / 1000000000).toInt.natAbs < 10 ^ (18 + 1) := by
    have hlow := Int64.le_toInt (endedAt / 1000000000)
    have hhigh := Int64.toInt_lt (endedAt / 1000000000)
    omega
  have hdecimal := decimalInt_length_le hnumber
  have hdigest : (base64Url digest.toList).length = 43 := by
    rw [base64Url_length, Vector.length_toList]
  have hhead : (str "sc-receipt-").length = 11 ∧ (str "-").length = 1 := by decide
  rw [tokenText, List.length_append, List.length_append, List.length_append, hdigest, hhead.1, hhead.2]
  omega

/-- A chain takes a receipt exactly if it has a key and the clock works. -/
theorem receiptChainAppendEx_iff {chain : ReceiptChain} {call : ReceiptCall} (hname : call.toolName.bytes ≠ []) :
    (∃ chain', receiptChainAppendEx hmac chain call = .ok chain') ↔
      chain.keyInitialized = true ∧ ∃ now, call.clock = .ok now := by
  rw [receiptChainAppendEx, if_neg hname]
  constructor
  · rintro ⟨chain', h⟩
    obtain ⟨now, hclock, h⟩ := Res.bind_eq_ok.mp h
    obtain ⟨token, htoken, -⟩ := Res.bind_eq_ok.mp h
    refine ⟨?_, now, hclock⟩
    by_contra hkey
    rw [receiptToken, if_pos (by simpa using hkey)] at htoken
    cases htoken
  · rintro ⟨hkey, now, hclock⟩
    have htoken : ∀ r, receiptToken hmac chain r =
        .ok (tokenText r.endedAt (hmac chain.sessionKey (receiptMessage r))) := by
      intro r
      rw [receiptToken, if_neg (by simp [hkey])]
      exact if_neg (not_le.mpr (tokenText_length _ _))
    simp only [hclock, htoken, bind, Except.bind]
    exact ⟨_, rfl⟩

theorem receiptSummary_ok {value : Bytes} (h : value.length < 2 ^ 64) :
    receiptSummary value = .ok (sizedText (str "hash=" ++
      bin2hex (u64Bytes (hashBytes hashInit value)).reverse ++ str " len=" ++ decimal value.length)) := by
  have hnumber := decimal_length_le 19 value.length (by omega)
  have hhex : (bin2hex (u64Bytes (hashBytes hashInit value)).reverse).length = 16 := by
    rw [bin2hex_length, List.length_reverse, u64Bytes, List.length_map, List.length_range]
  have hwords : (str "hash=").length = 5 ∧ (str " len=").length = 5 := by decide
  rw [receiptSummary]
  refine if_neg ?_
  rw [List.length_append, List.length_append, List.length_append, hhex, hwords.1, hwords.2]
  omega

/-- **The chain grows by one** exactly if the context keeps receipts, the chain has a key and the clock
    works. -/
theorem toolRecordReceiptStatus_length {context : ToolContext} {chain : ReceiptChain}
    {toolName argsSummary outputSummary : Bytes} {toolStatus : Res Bytes} {clock : Res Int64}
    (hname : (sizedText toolName).bytes ≠ []) (hargs : argsSummary.length < 2 ^ 64)
    (houtput : outputSummary.length < 2 ^ 64) :
    (toolRecordReceiptStatus hmac context chain toolName argsSummary outputSummary toolStatus
        clock).receipts.length = chain.receipts.length + 1 ↔
      context.keepsReceipts = true ∧ chain.keyInitialized = true ∧ ∃ now, clock = .ok now := by
  rw [toolRecordReceiptStatus]
  by_cases hkeeps : context.keepsReceipts = true
  · rw [if_neg (by simpa using hkeeps), receiptSummary_ok hargs, receiptSummary_ok houtput]
    refine Iff.trans ?_ (and_iff_right hkeeps).symm
    simp only
    generalize hcall : ReceiptCall.mk _ _ _ _ _ _ _ clock = call
    have hclock : call.clock = clock := by rw [← hcall]
    have hname' : call.toolName.bytes ≠ [] := by
      rw [← hcall]
      exact hname
    rw [← hclock, ← receiptChainAppendEx_iff hmac hname']
    cases happend : receiptChainAppendEx hmac chain call with
    | error e => exact iff_of_false (by simp only; omega) fun ⟨_, h⟩ => nomatch h
    | ok chain' =>
      obtain ⟨r, rfl, -, -⟩ := receiptChainAppendEx_ok happend
      exact iff_of_true (List.length_append) ⟨_, rfl⟩
  · rw [if_pos (by simpa using hkeeps)]
    exact iff_of_false (by omega) fun h => hkeeps h.1

end

end SmolClaw.Tools
