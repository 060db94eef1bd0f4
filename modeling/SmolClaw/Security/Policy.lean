/-
  The security policy (`sc_security_policy`, `src/security/policy.c`): the record every check reads,
  its list helpers, and the byte test for "this path lies under that one".

  The record keeps the fields the modelled checks read; its default values are the zeroed record of
  `sc_security_policy_init`.  `policyInitDefaults` installs what `sc_security_policy_init_defaults`
  puts in those fields.
-/
import SmolClaw.Core.Status

namespace SmolClaw.Security

/-- `sc_private_network_policy` -/
inductive PrivateNetworkPolicy where
  | block
  | allow
  deriving DecidableEq, Repr

/-- `sc_security_policy`; `{}` is `sc_security_policy_init`. -/
structure SecurityPolicy where
  workspaceRoot : Bytes := []
  allowedPaths : List Bytes := []
  deniedPaths : List Bytes := []
  allowedDomains : List Bytes := []
  deniedDomains : List Bytes := []
  allowedCommands : List Bytes := []
  forbiddenCommands : List Bytes := []
  privateNetworkPolicy : PrivateNetworkPolicy := .block
  workspaceOnly : Bool := false
  urlCredentialsAllowed : Bool := false

/-- `sc_security_policy_init_defaults` with `load_default_policy_lists` -/
def policyInitDefaults : SecurityPolicy :=
  { workspaceOnly := true
    deniedPaths := ["/etc", "/sys", "/boot", "~/.ssh", "~/.aws"].map str
    forbiddenCommands := ["shutdown", "reboot", "mkfs"].map str }

/-- `sc_security_list_contains`: an empty value is in no list. -/
def listContains (list : List Bytes) (value : Bytes) : Bool :=
  if value = [] then false else list.contains value

/-- `sc_security_path_has_prefix`, the branch that is not `__APPLE__` -/
def pathHasPrefix (path base : Bytes) : Bool :=
  if path.length < base.length then false
  else if path.take base.length ≠ base then false
  else path.length == base.length || path[base.length]? == some (chr '/')

theorem listContains_iff {list : List Bytes} {value : Bytes} :
    listContains list value = true ↔ value ≠ [] ∧ value ∈ list := by
  unfold listContains
  split
  · rename_i h; simp [h]
  · rename_i h; simp [h]

/-- **What the byte test says**: the path continues the base, and the continuation is empty or starts
    with a slash. -/
theorem pathHasPrefix_iff {path base : Bytes} :
    pathHasPrefix path base = true ↔
      ∃ rest, path = base ++ rest ∧ (rest = [] ∨ ∃ t, rest = chr '/' :: t) := by
  unfold pathHasPrefix
  constructor
  · intro h
    split at h
    · exact absurd h Bool.false_ne_true
    · split at h
      · exact absurd h Bool.false_ne_true
      · rename_i htake
        -- `memcmp` on the common length: the path starts with the base
        have hsplit : path = base ++ path.drop base.length := by
          have := List.take_append_drop base.length path
          rw [not_not.mp htake] at this
          exact this.symm
        refine ⟨path.drop base.length, hsplit, ?_⟩
        rw [Bool.or_eq_true, beq_iff_eq, beq_iff_eq] at h
        rcases h with h | h
        · exact Or.inl (List.drop_eq_nil_of_le (Nat.le_of_eq h))
        · obtain ⟨hlt, hget⟩ := List.getElem?_eq_some_iff.mp h
          exact Or.inr ⟨_, by rw [List.drop_eq_getElem_cons hlt, hget]⟩
  · rintro ⟨rest, rfl, hrest⟩
    rw [if_neg (by simp), if_neg (by simp)]
    rcases hrest with rfl | ⟨t, rfl⟩ <;> simp

end SmolClaw.Security
