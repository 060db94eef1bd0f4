/-
  `sc_status` and the byte strings every function of the program passes around.

  1. **Bytes** — `sc_str`/`sc_string` are a pointer and a length over arbitrary bytes, embedded NULs
     included, so the model's strings are `Bytes = List UInt8`.  `str` turns a literal of the source
     into its bytes.

  2. **Status** — a fallible function returns `sc_status`: `SC_OK`, or a code with a stable error
     key.  `Res α` is `Except ScError α`; the constructors below carry the source's names
     (`sc_status_security_denied` is `securityDenied`, and so on).  Out-of-memory is the one failure
     the model leaves out: `sc_alloc` always succeeds.
-/
import Mathlib.Algebra.Group.Int.Defs
import Mathlib.Algebra.Group.Nat.Defs
import Mathlib.Data.List.Basic

namespace SmolClaw

/-- The bytes of an `sc_str` or `sc_string`. -/
abbrev Bytes := List UInt8

instance : LawfulBEq Bytes := inferInstanceAs (LawfulBEq (List UInt8))

/-- The bytes of a source literal (all of them are ASCII). -/
def str (s : String) : Bytes := s.toList.map Char.toUInt8

/-- A character of the source as a byte. -/
abbrev chr (c : Char) : UInt8 := c.toUInt8

/-- A predicate that is checked byte by byte holds of every byte of a text. -/
theorem bytes_forall {p : UInt8 → Prop} [DecidablePred p] {text : Bytes}
    (h : text.all (fun c => decide (p c)) = true) : ∀ c ∈ text, p c :=
  fun c hc => of_decide_eq_true (List.all_eq_true.mp h c hc)

/-- `SIZE_MAX` on a machine of 64 bits. -/
def sizeMax : Nat := 2 ^ 64 - 1

/-- `sc_status_code`, `SC_OK` apart. -/
inductive StatusCode where
  | invalidArgument
  | noMemory
  | io
  | parse
  | http
  | securityDenied
  | unsupported
  | timeout
  | cancelled
  deriving DecidableEq, Repr

/-- A failed `sc_status`: its code and its `error_key`. -/
structure ScError where
  code : StatusCode
  errorKey : String
  deriving DecidableEq, Repr

/-- The result of a function that returns `sc_status` and, on `SC_OK`, fills an out parameter. -/
abbrev Res (α : Type) := Except ScError α

namespace Status

variable {α : Type}

/-- `sc_status_invalid_argument` -/
def invalidArgument (key : String) : Res α := .error ⟨.invalidArgument, key⟩
/-- `sc_status_no_memory` -/
def noMemory : Res α := .error ⟨.noMemory, "sc.core.no_memory"⟩
/-- `sc_status_io` -/
def io (key : String) : Res α := .error ⟨.io, key⟩
/-- `sc_status_parse` -/
def parse (key : String) : Res α := .error ⟨.parse, key⟩
/-- `sc_status_http` -/
def http (key : String) : Res α := .error ⟨.http, key⟩
/-- `sc_status_timeout` -/
def timeout (key : String) : Res α := .error ⟨.timeout, key⟩
/-- `sc_status_security_denied` -/
def securityDenied (key : String) : Res α := .error ⟨.securityDenied, key⟩
/-- `sc_status_unsupported` -/
def unsupported (key : String) : Res α := .error ⟨.unsupported, key⟩
/-- `sc_status_cancelled` -/
def cancelled (key : String) : Res α := .error ⟨.cancelled, key⟩

end Status

/-- A failing status is no success: the simp set closes these goals wherever a status is built. -/
@[simp] theorem Status.invalidArgument_ne_ok {α : Type} (k : String) (a : α) :
    (Status.invalidArgument k : Res α) ≠ .ok a := nofun
@[simp] theorem Status.io_ne_ok {α : Type} (k : String) (a : α) :
    (Status.io k : Res α) ≠ .ok a := nofun
@[simp] theorem Status.parse_ne_ok {α : Type} (k : String) (a : α) :
    (Status.parse k : Res α) ≠ .ok a := nofun
@[simp] theorem Status.securityDenied_ne_ok {α : Type} (k : String) (a : α) :
    (Status.securityDenied k : Res α) ≠ .ok a := nofun
@[simp] theorem Status.unsupported_ne_ok {α : Type} (k : String) (a : α) :
    (Status.unsupported k : Res α) ≠ .ok a := nofun
@[simp] theorem Status.cancelled_ne_ok {α : Type} (k : String) (a : α) :
    (Status.cancelled k : Res α) ≠ .ok a := nofun

/-- **The bind rule**: a successful sequence of two fallible calls is two successful calls. -/
theorem Res.bind_eq_ok {α β : Type} {x : Res α} {f : α → Res β} {b : β} :
    (x >>= f) = .ok b ↔ ∃ a, x = .ok a ∧ f a = .ok b := by
  cases x with
  | error e => exact ⟨nofun, fun ⟨_, h, _⟩ => nomatch h⟩
  | ok a => exact ⟨fun h => ⟨a, rfl, h⟩, fun ⟨_, h, hf⟩ => by cases h; exact hf⟩

/-- A failing sequence fails in one of its two calls. -/
theorem Res.bind_eq_error {α β : Type} {x : Res α} {f : α → Res β} {e : ScError} :
    (x >>= f) = .error e ↔ x = .error e ∨ ∃ a, x = .ok a ∧ f a = .error e := by
  cases x with
  | error d =>
    constructor
    · intro h; exact Or.inl (congrArg Except.error (Except.error.inj h))
    · rintro (h | ⟨a, h, -⟩)
      · exact congrArg Except.error (Except.error.inj h)
      · exact nomatch h
  | ok a =>
    constructor
    · intro h; exact Or.inr ⟨a, rfl, h⟩
    · rintro (h | ⟨b, h, hf⟩)
      · exact nomatch h
      · cases h; exact hf

end SmolClaw
