/-
  The emergency stop and its file (`src/security/estop.c`).

  1. **Program** — two lines, the flag and the reason, are written over the file from its start on.
     Reading goes through the pieces that `fgets` delivers: a piece that starts with `active=true` sets
     the flag, one that starts with `reason=` is the reason.

  2. **Specification** — `FailsSafe`: a stop that has been written stays a stop for every reader until an
     inactive state has been written, and what a write has written is read back.

  3. **Defect** — opening the file for writing empties it, so a write that fails loses the stop that was
     there; the secret store writes a second file and renames it.

  4. **Result** — `failsSafe_iff`: the specification is met exactly when every write that fails over a
     stop is refused before it opens the file, or is one of a stop and gets as far as the flag.
-/
import SmolClaw.Core.Status
import SmolClaw.Lib.Lines
import SmolClaw.Lib.Run
import Mathlib.Data.List.TakeWhile

namespace SmolClaw.Security

open Lib.Lines Lib.Run

/-! ## State -/

/-- `sc_estop_state` -/
structure EstopState where
  active : Bool := false
  reason : Bytes := []
  deriving DecidableEq, Repr

/-- `sc_estop_trip` -/
def estopTrip (reason : Bytes) : EstopState := { active := true, reason := reason }

/-- `sc_estop_reset` -/
def estopReset : EstopState := { active := false, reason := [] }

/-- `sc_estop_check` -/
def estopCheck (estop : Option EstopState) : Res Unit :=
  match estop with
  | some state => if state.active then Status.securityDenied "sc.estop.active" else .ok ()
  | none => .ok ()

/-! ## File -/

/-- The size of `path_buf`. -/
def pathBufSize : Nat := 4096

/-- The bytes that `fgets` reads at most into the buffer of 512. -/
def lineRoom : Nat := 511

/-- What `fprintf` writes; the reason ends at its first zero. -/
def estopText (estop : EstopState) : Bytes :=
  str "active=" ++ (if estop.active then str "true" else str "false") ++ str "\nreason=" ++
    estop.reason.takeWhile (· ≠ 0) ++ [chr '\n']

/-- How writing goes: the file cannot be opened, writing or closing fails when so many bytes are in the
    file, or all goes well. -/
inductive WriteOutcome where
  | openFails
  | writeFails (written : Nat)
  | closeFails (written : Nat)
  | succeeds
  deriving DecidableEq, Repr

/-- `sc_estop_write_file`: the file after it, and the status. -/
def estopWriteFile (estop : EstopState) (path : Bytes) (outcome : WriteOutcome) (file : Option Bytes) :
    Option Bytes × Res Unit :=
  if path = [] ∨ pathBufSize ≤ path.length then (file, Status.invalidArgument "sc.estop.invalid_argument")
  else
    match outcome with
    | .openFails => (file, Status.io "sc.estop.write_open_failed")
    | .writeFails written => (some ((estopText estop).take written), Status.io "sc.estop.write_failed")
    | .closeFails written =>
        (some ((estopText estop).take written), Status.io "sc.estop.write_close_failed")
    | .succeeds => (some (estopText estop), .ok ())

theorem estopWriteFile_refused {path : Bytes} (h : path = [] ∨ pathBufSize ≤ path.length)
    (estop : EstopState) (outcome : WriteOutcome) (file : Option Bytes) :
    estopWriteFile estop path outcome file = (file, Status.invalidArgument "sc.estop.invalid_argument") :=
  if_pos h

theorem estopWriteFile_stopped {path : Bytes} (h : ¬(path = [] ∨ pathBufSize ≤ path.length))
    (estop : EstopState) (written : Nat) (file : Option Bytes) :
    estopWriteFile estop path (.writeFails written) file =
      (some ((estopText estop).take written), Status.io "sc.estop.write_failed") :=
  if_neg h

theorem estopWriteFile_unclosed {path : Bytes} (h : ¬(path = [] ∨ pathBufSize ≤ path.length))
    (estop : EstopState) (written : Nat) (file : Option Bytes) :
    estopWriteFile estop path (.closeFails written) file =
      (some ((estopText estop).take written), Status.io "sc.estop.write_close_failed") :=
  if_neg h

theorem estopWriteFile_unopened {path : Bytes} (h : ¬(path = [] ∨ pathBufSize ≤ path.length))
    (estop : EstopState) (file : Option Bytes) :
    estopWriteFile estop path .openFails file = (file, Status.io "sc.estop.write_open_failed") :=
  if_neg h

theorem estopWriteFile_succeeds {path : Bytes} (h : ¬(path = [] ∨ pathBufSize ≤ path.length))
    (estop : EstopState) (file : Option Bytes) :
    estopWriteFile estop path .succeeds file = (some (estopText estop), .ok ()) :=
  if_neg h

/-- One turn of the loop of `sc_estop_read_file`; the piece is a C string. -/
def readPiece (out : EstopState) (piece : Bytes) : EstopState :=
  let line := piece.takeWhile (· ≠ 0)
  if str "active=true" <+: line then { out with active := true }
  else if str "reason=" <+: line then
    { out with
      reason :=
        (if line.getLast? = some (chr '\n') then line.dropLast else line).drop (str "reason=").length }
  else out

/-- What is read from the bytes of the file. -/
def readText (bytes : Bytes) : EstopState := (readLines (chr '\n') lineRoom bytes).foldl readPiece {}

/-- `sc_estop_read_file`, from a file that can be read if it is there. -/
def estopReadFile (path : Bytes) (file : Option Bytes) : Res EstopState :=
  if path = [] ∨ pathBufSize ≤ path.length then Status.invalidArgument "sc.estop.invalid_argument"
  else
    match file with
    | none => Status.io "sc.estop.read_open_failed"
    | some bytes => .ok (readText bytes)

example : readText (estopText (estopTrip (str "smoke"))) = estopTrip (str "smoke") := by decide

/-! ## Runs -/

/-- A call. -/
inductive EstopCall where
  | trip (reason : Bytes)
  | reset
  | write (outcome : WriteOutcome)

/-- The state in memory, the file, and the state that was written successfully last. -/
structure EstopRun where
  estop : EstopState := {}
  file : Option Bytes
  written : Option EstopState := none

/-- One more call. -/
def estopStep (path : Bytes) (s : EstopRun) : EstopCall → EstopRun
  | .trip reason => { s with estop := estopTrip reason }
  | .reset => { s with estop := estopReset }
  | .write outcome =>
      let (file, status) := estopWriteFile s.estop path outcome s.file
      { s with file := file, written := if status.isOk then some s.estop else s.written }

/-- **A stop stays a stop**: if a stop was written last, no reader sees anything else. -/
def StaysActive (path : Bytes) (s : EstopRun) : Prop :=
  ∀ written, s.written = some written → written.active = true →
    ∀ out, estopReadFile path s.file = .ok out → out.active = true

/-- **What was written is read back**: the flag, and a reason of one line and 500 bytes at most. -/
def ReadsBack (path : Bytes) (s : EstopRun) (outcome : WriteOutcome) : Prop :=
  (estopWriteFile s.estop path outcome s.file).2 = .ok () →
    ∃ out, estopReadFile path (estopStep path s (.write outcome)).file = .ok out ∧
      out.active = s.estop.active ∧
      (chr '\n' ∉ s.estop.reason → s.estop.reason.length ≤ 500 → out.reason = s.estop.reason)

/-- **The emergency stop fails safe**, after every call of a run. -/
def FailsSafe (path : Bytes) (file : Option Bytes) (calls : List EstopCall) : Prop :=
  (∀ before, before <+: calls → StaysActive path (run (estopStep path) { file := file } before)) ∧
    ∀ before outcome, before ++ [.write outcome] <+: calls →
      ReadsBack path (run (estopStep path) { file := file } before) outcome

/-- **When a failing write does no harm** to a stop that was written last: it does not get to the file, or
    it is one of a stop and gets as far as the flag. -/
def KeepsStop (s : EstopRun) : EstopCall → Prop
  | .write (.writeFails written) | .write (.closeFails written) =>
      ∀ last, s.written = some last → last.active = true →
        s.estop.active = true ∧ (str "active=true").length ≤ written
  | .write .succeeds | .write .openFails | .trip _ | .reset => True

/-! ## Reading what was written -/

/-- The flag is never taken back. -/
theorem foldl_readPiece_active (pieces : List Bytes) :
    ∀ {out : EstopState}, out.active = true → (pieces.foldl readPiece out).active = true := by
  induction pieces with
  | nil => intro out h; exact h
  | cons piece pieces ih =>
    intro out h
    refine ih ?_
    unfold readPiece
    simp only
    split
    · rfl
    · split
      · exact h
      · exact h

/-- A text that starts with the flag is read as a stop. -/
theorem readText_active (rest : Bytes) : (readText (str "active=true" ++ rest)).active = true := by
  have hlf : chr '\n' ∉ str "active=true" := by decide
  obtain ⟨first, more, heq, ⟨tail, rfl⟩⟩ :=
    readLines_head (by decide : str "active=true" ≠ []) hlf
      (by decide : (str "active=true").length ≤ lineRoom) rest
  rw [readText, heq, List.foldl_cons]
  refine foldl_readPiece_active more ?_
  have hplain : ∀ c ∈ str "active=true", decide (c ≠ 0) = true := bytes_forall (by decide)
  rw [readPiece, List.takeWhile_append_of_pos hplain, if_pos (List.prefix_append _ _)]

/-- The text of a stop. -/
theorem estopText_active {estop : EstopState} (h : estop.active = true) :
    ∃ rest, estopText estop = str "active=true" ++ rest := by
  refine ⟨str "\nreason=" ++ estop.reason.takeWhile (· ≠ 0) ++ [chr '\n'], ?_⟩
  have hflag : str "active=true" = str "active=" ++ str "true" := by decide
  rw [estopText, h, if_pos rfl, hflag]
  simp only [List.append_assoc]

/-- A line with a reason. -/
theorem readPiece_reason (out : EstopState) {reason : Bytes}
    (h : ∀ c ∈ reason, decide (c ≠ 0) = true) :
    (readPiece out ((str "reason=" ++ reason) ++ [chr '\n'])).reason = reason := by
  have hline : ((str "reason=" ++ reason) ++ [chr '\n']).takeWhile (· ≠ 0) =
      (str "reason=" ++ reason) ++ [chr '\n'] := by
    refine List.takeWhile_eq_self_iff.mpr fun c hc => ?_
    rcases List.mem_append.mp hc with hc | hc
    · rcases List.mem_append.mp hc with hc | hc
      · have hkeyBytes : ∀ c ∈ str "reason=", decide (c ≠ 0) = true := bytes_forall (by decide)
        exact hkeyBytes c hc
      · exact h c hc
    · rw [List.mem_singleton.mp hc]
      decide
  have hkey : str "reason=" <+: (str "reason=" ++ reason) ++ [chr '\n'] := by
    rw [List.append_assoc]
    exact List.prefix_append _ _
  have hflag : ¬str "active=true" <+: (str "reason=" ++ reason) ++ [chr '\n'] := by
    intro hp
    have hboth := List.prefix_of_prefix_length_le hkey hp (by decide)
    exact absurd hboth (by decide)
  unfold readPiece
  simp only [hline]
  rw [if_neg hflag, if_pos hkey, List.getLast?_append]
  show (if some (chr '\n') = some (chr '\n') then _ else _ : Bytes).drop _ = reason
  rw [if_pos rfl, List.dropLast_concat, List.drop_left]

/-- The first bytes of a flag and of a reset are no flag. -/
theorem readText_take_flag :
    ∀ written < 11, (readText ((str "active=true").take written)).active = false := by
  decide

theorem readText_take_reset :
    ∀ written < 22, (readText ((estopText estopReset).take written)).active = false := by
  decide

/-- **What a reader sees of a write that stopped**: a stop, if it is one of a stop and got as far as the
    flag. -/
theorem readText_take {estop : EstopState} (h : estop.active = false → estop.reason = [])
    (written : Nat) : (readText ((estopText estop).take written)).active = true ↔
      estop.active = true ∧ (str "active=true").length ≤ written := by
  have hflag : (str "active=true").length = 11 := by decide
  rw [hflag]
  cases hactive : estop.active with
  | true =>
    obtain ⟨rest, htext⟩ := estopText_active hactive
    rw [htext, and_iff_right rfl]
    by_cases hlen : 11 ≤ written
    · have htake : (str "active=true" ++ rest).take written =
          str "active=true" ++ rest.take (written - 11) := by
        rw [List.take_append, hflag, List.take_of_length_le (by omega)]
      rw [htake]
      exact iff_of_true (readText_active _) hlen
    · rw [List.take_append_of_le_length (by omega), readText_take_flag written (by omega)]
      exact iff_of_false Bool.false_ne_true hlen
  | false =>
    have htext : estopText estop = estopText estopReset := by
      rw [estopText, estopText, hactive, h hactive]
      rfl
    have hread : (readText ((estopText estopReset).take written)).active = false := by
      by_cases hlen : written < 22
      · exact readText_take_reset written hlen
      · have hsize : (estopText estopReset).length = 21 := by decide
        rw [List.take_of_length_le (by omega)]
        decide
    rw [htext, hread]
    exact iff_of_false Bool.false_ne_true (fun hand => Bool.false_ne_true hand.1)

/-- The whole text: the flag is read as it is. -/
theorem readText_flag {estop : EstopState} (h : estop.active = false → estop.reason = []) :
    (readText (estopText estop)).active = estop.active := by
  have hall : (estopText estop).take (11 + (estopText estop).length) = estopText estop :=
    List.take_of_length_le (by omega)
  have hread := readText_take h (11 + (estopText estop).length)
  have hlen : (str "active=true").length ≤ 11 + (estopText estop).length := by
    have hflag : (str "active=true").length = 11 := by decide
    omega
  rw [hall, and_iff_left hlen] at hread
  exact Bool.eq_iff_iff.mpr hread

/-- The reason is a line of its own, and is read as it is. -/
theorem readText_reason {estop : EstopState} (hzero : (0 : UInt8) ∉ estop.reason)
    (hline : chr '\n' ∉ estop.reason) (hlen : estop.reason.length ≤ 500) :
    (readText (estopText estop)).reason = estop.reason := by
  have hplain : ∀ c ∈ estop.reason, decide (c ≠ 0) = true := by
    intro c hc
    exact decide_eq_true fun hc0 => hzero (hc0 ▸ hc)
  have hreason : estop.reason.takeWhile (· ≠ 0) = estop.reason := List.takeWhile_eq_self_iff.mpr hplain
  obtain ⟨flag, hflag, hlf, hroom, hfirst⟩ : ∃ flag : Bytes,
      str "active=" ++ (if estop.active then str "true" else str "false") = flag ∧
        chr '\n' ∉ flag ∧ flag.length < lineRoom ∧
        (readPiece {} (flag ++ [chr '\n'])).reason = [] := by
    refine ⟨_, rfl, ?_⟩
    cases estop.active <;> decide
  have hkey : str "\nreason=" = chr '\n' :: str "reason=" := by decide
  have htext : estopText estop =
      flag ++ chr '\n' :: (str "reason=" ++ estop.reason ++ chr '\n' :: []) := by
    rw [estopText, hflag, hreason, hkey]
    simp only [List.append_assoc, List.cons_append]
  have hsecond : chr '\n' ∉ str "reason=" ++ estop.reason :=
    List.not_mem_append (by decide) hline
  have hsize : (str "reason=" ++ estop.reason).length < lineRoom := by
    have hk : (str "reason=").length = 7 := by decide
    rw [List.length_append, lineRoom]
    omega
  rw [readText, htext, readLines_line hlf hroom, readLines_line hsecond hsize]
  show (readPiece (readPiece {} (flag ++ [chr '\n']))
    ((str "reason=" ++ estop.reason) ++ [chr '\n'])).reason = estop.reason
  exact readPiece_reason _ hplain

/-! ## Runs of calls -/

/-- What the calls keep: only a stop has a reason, and only a good path is written to. -/
structure Coherent (path : Bytes) (s : EstopRun) : Prop where
  reset : s.estop.active = false → s.estop.reason = []
  writable : s.written ≠ none → ¬(path = [] ∨ pathBufSize ≤ path.length)

variable {path : Bytes} {s : EstopRun}

theorem Coherent.step (h : Coherent path s) (call : EstopCall) : Coherent path (estopStep path s call) := by
  cases call with
  | trip reason =>
    refine ⟨fun hactive => ?_, h.writable⟩
    cases hactive
  | reset => exact ⟨fun _ => rfl, h.writable⟩
  | write outcome =>
    refine ⟨h.reset, ?_⟩
    by_cases hpath : path = [] ∨ pathBufSize ≤ path.length
    · have hstep : (estopStep path s (.write outcome)).written = s.written := by
        rw [estopStep, estopWriteFile_refused hpath]
        rfl
      rw [hstep]
      exact h.writable
    · exact fun _ => hpath

/-- A write to a good path that stopped. -/
theorem staysActive_stopped (h : Coherent path s) (hpath : ¬(path = [] ∨ pathBufSize ≤ path.length))
    (written : Nat) :
    StaysActive path { s with file := some ((estopText s.estop).take written) } ↔
      ∀ last, s.written = some last → last.active = true →
        s.estop.active = true ∧ (str "active=true").length ≤ written := by
  refine forall_congr' fun last => forall_congr' fun _ => forall_congr' fun _ => ?_
  rw [← readText_take h.reset written]
  show (∀ out, estopReadFile path (some ((estopText s.estop).take written)) = .ok out → _) ↔ _
  rw [estopReadFile, if_neg hpath]
  constructor
  · exact fun hread => hread _ rfl
  · intro hread out hout
    obtain rfl := Except.ok.inj hout
    exact hread

/-- **One call** keeps a stop exactly when its write does no harm. -/
theorem staysActive_step (h : Coherent path s) (hs : StaysActive path s) (call : EstopCall) :
    StaysActive path (estopStep path s call) ↔ KeepsStop s call := by
  cases call with
  | trip reason => exact iff_of_true hs trivial
  | reset => exact iff_of_true hs trivial
  | write outcome =>
    by_cases hpath : path = [] ∨ pathBufSize ≤ path.length
    · have hnever : s.written = none := by
        by_contra hwritten
        exact h.writable hwritten hpath
      have hstep : estopStep path s (.write outcome) = s := by
        rw [estopStep, estopWriteFile_refused hpath]
        rfl
      rw [hstep]
      refine iff_of_true hs ?_
      cases outcome with
      | openFails => trivial
      | succeeds => trivial
      | writeFails written =>
        intro last hlast
        exact absurd (hnever.symm.trans hlast) (by simp)
      | closeFails written =>
        intro last hlast
        exact absurd (hnever.symm.trans hlast) (by simp)
    · cases outcome with
      | openFails =>
        rw [estopStep, estopWriteFile_unopened hpath]
        exact iff_of_true hs trivial
      | writeFails written =>
        rw [estopStep, estopWriteFile_stopped hpath]
        exact staysActive_stopped h hpath written
      | closeFails written =>
        rw [estopStep, estopWriteFile_unclosed hpath]
        exact staysActive_stopped h hpath written
      | succeeds =>
        rw [estopStep, estopWriteFile_succeeds hpath]
        refine iff_of_true ?_ trivial
        intro last hlast hactive out hout
        obtain rfl := Option.some.inj hlast
        have hread : estopReadFile path (some (estopText s.estop)) = .ok out := hout
        rw [estopReadFile, if_neg hpath] at hread
        obtain rfl := Except.ok.inj hread
        rw [readText_flag h.reset]
        exact hactive

/-- A successful write is read back. -/
theorem readsBack (h : Coherent path s) (hzero : (0 : UInt8) ∉ s.estop.reason) (outcome : WriteOutcome) :
    ReadsBack path s outcome := by
  intro hok
  by_cases hpath : path = [] ∨ pathBufSize ≤ path.length
  · rw [estopWriteFile_refused hpath] at hok
    cases hok
  · cases outcome with
    | openFails =>
      rw [estopWriteFile_unopened hpath] at hok
      cases hok
    | writeFails written =>
      rw [estopWriteFile_stopped hpath] at hok
      cases hok
    | closeFails written =>
      rw [estopWriteFile_unclosed hpath] at hok
      cases hok
    | succeeds =>
      have hfile : (estopStep path s (.write .succeeds)).file = some (estopText s.estop) := by
        rw [estopStep, estopWriteFile_succeeds hpath]
      refine ⟨readText (estopText s.estop), ?_, readText_flag h.reset, readText_reason hzero⟩
      rw [hfile, estopReadFile, if_neg hpath]

/-- The reasons of a run have no zero. -/
theorem reason_step {call : EstopCall} (hs : (0 : UInt8) ∉ s.estop.reason)
    (hcall : ∀ reason, call = .trip reason → (0 : UInt8) ∉ reason) :
    (0 : UInt8) ∉ (estopStep path s call).estop.reason := by
  cases call with
  | trip reason => exact hcall reason rfl
  | reset => exact List.not_mem_nil
  | write outcome => exact hs

/-! ## Results -/

/-- **The emergency stop fails safe exactly when no failing write harms a stop**: when every write that
    fails over a stop is refused before it opens the file, or is one of a stop and gets as far as the
    flag. -/
theorem failsSafe_iff {path : Bytes} {file : Option Bytes} {calls : List EstopCall}
    (hzero : ∀ reason, .trip reason ∈ calls → (0 : UInt8) ∉ reason) :
    FailsSafe path file calls ↔ EachStep (estopStep path) KeepsStop { file := file } calls := by
  have hstart : Coherent path { file := file } := ⟨fun _ => rfl, fun h => absurd rfl h⟩
  have hsafe := safe_iff_eachStep (fun s call (h : Coherent path s) => h.step call)
    (fun s call h hs => staysActive_step h hs call) calls { file := file } hstart
    (fun _ hwritten => by cases hwritten)
  refine (and_iff_left ?_).trans hsafe
  intro before outcome hbefore
  have hsub : ∀ call ∈ before, ∀ reason, call = .trip reason → (0 : UInt8) ∉ reason := by
    rintro call hcall reason rfl
    exact hzero reason (hbefore.subset (List.mem_append_left _ hcall))
  have hplain : EachStep (estopStep path)
      (fun _ call => ∀ reason, call = EstopCall.trip reason → (0 : UInt8) ∉ reason) { file := file }
      before := eachStep_of_forall hsub
  have hreason : (0 : UInt8) ∉ (run (estopStep path) { file := file } before).estop.reason :=
    run_invariant (I := fun s : EstopRun => (0 : UInt8) ∉ s.estop.reason)
      (fun _ _ hs hcall => reason_step hs hcall) before _ List.not_mem_nil hplain
  have hcoherent : Coherent path (run (estopStep path) { file := file } before) :=
    run_preserves (I := Coherent path) (fun _ call h => h.step call) before _ hstart
  exact readsBack hcoherent hreason outcome

/-- A trip that is written survives a write that cannot open the file. -/
theorem failsSafe_openFails :
    FailsSafe (str "state/estop") none
      [.trip (str "smoke"), .write .succeeds, .reset, .write .openFails] :=
  (failsSafe_iff (by
    intro reason hmem
    simp only [List.mem_cons, List.not_mem_nil, or_false, EstopCall.trip.injEq, reduceCtorEq] at hmem
    rw [hmem]
    decide)).mpr ⟨trivial, trivial, trivial, trivial, trivial⟩

/-- A reset whose write fails when the file is open takes the stop away. -/
theorem not_failsSafe_writeFails :
    ¬FailsSafe (str "state/estop") none
      [.trip (str "smoke"), .write .succeeds, .reset, .write (.writeFails 0)] := by
  intro h
  have hactive : false = true :=
    h.1 _ (List.prefix_refl _) (estopTrip (str "smoke")) (by decide) rfl {} (by decide)
  cases hactive

end SmolClaw.Security
